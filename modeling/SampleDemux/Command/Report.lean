import SampleDemux.Sink.Statistics
import SampleDemux.Yaml.Tree

/-!
# Reports of statistics

A report gives the statistics of every stream's components as a YAML document. A histogram without
entries is left out.
-/

namespace SampleDemux

/-- The statistics of a component as a tree. -/
def ComponentStatistics.tree (statistics : ComponentStatistics) : Yaml.Tree :=
  let moments := statistics.moments
  let histogram : Yaml.Tree :=
    .mapping (statistics.histogram.entries.map fun (key, count) => (.integer key, .count count))
  .record ([
    ("count", .count moments.count),
    ("mean", .number moments.mean),
    ("variance", .number moments.variance),
    ("min", .number moments.least),
    ("max", .number moments.greatest)] ++
    if statistics.histogram.isEmpty then [] else [("histogram", histogram)])

/-- The statistics of a stream as a tree. -/
def StatisticsSink.tree (sink : StatisticsSink) : Yaml.Tree :=
  .record (("in_phase", sink.inPhase.tree) ::
    (sink.quadrature.map fun quadrature => ("quadrature", quadrature.tree)).toList)

/-- The statistics of all streams as a text. -/
def renderReport (report : Catalog String StatisticsSink) : String :=
  (Yaml.Tree.record (report.entries.map fun (stream, sink) => (stream, sink.tree))).render

end SampleDemux
