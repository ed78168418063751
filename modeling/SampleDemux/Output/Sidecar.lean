import SampleDemux.Descriptor
import SampleDemux.Output.Target
import SampleDemux.Yaml.Tree

/-!
# Descriptions of sample files

A sidecar says which file it describes, how the values are kept, how many samples there are, and
what stream they belong to.
-/

namespace SampleDemux

/-- What is known of a file with samples. -/
structure Sidecar where
  /-- Name of the file. -/
  file : String
  /-- How values are kept. -/
  container : Container
  /-- The type of the values. -/
  sampleType : SampleType
  /-- Number of samples. -/
  samples : Nat
  /-- The stream. -/
  stream : StreamRecord

/-- A stream's record as a tree. -/
def StreamRecord.tree (record : StreamRecord) : Yaml.Tree :=
  .record [
    ("id", .text record.id),
    ("base_frequency", .number record.baseFrequency),
    ("sample_frequency", .number record.sampleFrequency),
    ("quantization", .count record.quantization),
    ("is_complex", .scalar (.truth record.isComplex)),
    ("format", .text record.format.name),
    ("encoding", .text record.encoding.name),
    ("center_frequency", .number record.centerFrequency),
    ("translated_frequency", .number record.translatedFrequency),
    ("delay_bias", .number record.delayBias)]

/-- A sidecar as a tree. -/
def Sidecar.tree (sidecar : Sidecar) : Yaml.Tree :=
  .record [
    ("file", .text sidecar.file),
    ("container", .text sidecar.container.name),
    ("sample_type", .text sidecar.sampleType.name),
    ("samples", .count sidecar.samples),
    ("stream", sidecar.stream.tree)]

/-- A sidecar as a text. -/
def Sidecar.render (sidecar : Sidecar) : String := sidecar.tree.render

end SampleDemux
