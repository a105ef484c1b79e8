import PanelQuery.Formula.Evaluation
import PanelQuery.Proofs.Cadence
import PanelQuery.Proofs.Category.AnyOrder
import PanelQuery.Proofs.Formula.Clock
import PanelQuery.Proofs.Formula.Results
import PanelQuery.Proofs.Formula.Writing
import PanelQuery.Proofs.Panel.Alignment
import PanelQuery.Proofs.Panel.Coverage
import PanelQuery.Proofs.Panel.CrossSection
import PanelQuery.Proofs.Panel.Document
import PanelQuery.Proofs.Panel.MarketEpisodes
import PanelQuery.Proofs.Panel.Reduction
import PanelQuery.Proofs.Panel.Resampling
import PanelQuery.Proofs.Panel.Selection
import PanelQuery.Proofs.Panel.Windows
import PanelQuery.Proofs.Query.Schedules
import PanelQuery.Proofs.Resampling.Steps
import PanelQuery.Proofs.Series.FiniteMap
import PanelQuery.Proofs.SetAlgebra.Membership
import PanelQuery.Proofs.Step.Ranges
import PanelQuery.Service
import PanelQuery.Settings.Document
import PanelQuery.Terms
import PanelQuery.Proofs.Series.Trailing
import PanelQuery.Proofs.Statistics.LeastSquares
import PanelQuery.Proofs.Statistics.Quantiles
import PanelQuery.Proofs.Panel.BoxPlot
import PanelQuery.Proofs.Service
import PanelQuery.Proofs.Query.Document
import PanelQuery.Proofs.Query.Rendering
import PanelQuery.Proofs.Query.Violations
import PanelQuery.Proofs.Terms
import PanelQuery.Proofs.Statistics.Sums
import PanelQuery.Proofs.Formula.Stretches
import PanelQuery.Proofs.Formula.Builds
import PanelQuery.Proofs.Number.SortKeys
