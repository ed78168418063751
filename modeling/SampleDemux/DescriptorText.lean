import SampleDemux.Descriptor
import SampleDemux.Yaml.Reading

/-!
# Reading descriptors

A descriptor is written as a YAML document of nested records. Every field may be left out, and other
fields than these are passed over.
-/

namespace SampleDemux

open Yaml

namespace Descriptor

/-- A number of 64 bits. -/
def longCount : Reading Nat := .natBelow (Nat.pow 2 64)

/-- A number of 32 bits. -/
def shortCount : Reading Nat := .natBelow (Nat.pow 2 32)

/-- Reads a system. -/
def systemReading : Reading System :=
  .record {} [
    .of "id" .text fun id record => { record with id },
    .of "base_frequency" .number fun baseFrequency record => { record with baseFrequency }]

/-- Reads a band. -/
def bandReading : Reading Band :=
  .record {} [
    .of "id" .text fun id record => { record with id },
    .of "center_frequency" .number fun centerFrequency record =>
      { record with centerFrequency },
    .of "translated_frequency" .number fun translatedFrequency record =>
      { record with translatedFrequency },
    .of "delay_bias" .number fun delayBias record => { record with delayBias }]

/-- Reads a data file. -/
def fileReading : Reading DataFile :=
  .record {} [
    .of "url" .text fun url record => { record with url },
    .of "lane" .text fun lane record => { record with lane },
    .of "offset" longCount fun offset record => { record with offset }]

/-- Reads a stream. -/
def streamReading : Reading StreamDecl :=
  .record {} [
    .of "id" .text fun id record => { record with id },
    .of "rate_factor" shortCount fun rateFactor record => { record with rateFactor },
    .of "packed_bits" shortCount fun packedBits record => { record with packedBits },
    .of "alignment" (.choice Alignment.ofName?) fun alignment record =>
      { record with alignment },
    .of "shift" (.choice Direction.ofName?) fun shift record => { record with shift },
    .of "format" (.choice SampleFormat.ofName?) fun format record => { record with format },
    .of "encoding" (.choice Encoding.ofName?) fun encoding record => { record with encoding },
    .of "quantization" shortCount fun quantization record => { record with quantization },
    .of "bands" (.list .text) fun bands record => { record with bands }]

/-- Reads a lump. -/
def lumpReading : Reading LumpDecl :=
  .record {} [
    .of "shift" (.choice Direction.ofName?) fun shift record => { record with shift },
    .of "streams" (.list streamReading) fun streams record => { record with streams }]

/-- Reads a chunk. -/
def chunkReading : Reading ChunkDecl :=
  .record {} [
    .of "size_word" longCount fun sizeWord record => { record with sizeWord },
    .of "count_words" longCount fun countWords record => { record with countWords },
    .of "endian" (.choice ByteOrder.ofName?) fun endian record => { record with endian },
    .of "padding" (.choice Padding.ofName?) fun padding record => { record with padding },
    .of "shift" (.choice Direction.ofName?) fun shift record => { record with shift },
    .of "lumps" (.list lumpReading) fun lumps record => { record with lumps }]

/-- Reads a block. -/
def blockReading : Reading BlockDecl :=
  .record {} [
    .of "cycles" longCount fun cycles record => { record with cycles },
    .of "size_header" longCount fun sizeHeader record => { record with sizeHeader },
    .of "size_footer" longCount fun sizeFooter record => { record with sizeFooter },
    .of "chunks" (.list chunkReading) fun chunks record => { record with chunks }]

/-- Reads a lane. -/
def laneReading : Reading LaneDecl :=
  .record {} [
    .of "id" .text fun id record => { record with id },
    .of "systems" (.list .text) fun systems record => { record with systems },
    .of "blocks" (.list blockReading) fun blocks record => { record with blocks }]

/-- Reads a descriptor. -/
def reading : Reading Descriptor :=
  .record {} [
    .of "systems" (.list systemReading) fun systems record => { record with systems },
    .of "bands" (.list bandReading) fun bands record => { record with bands },
    .of "files" (.list fileReading) fun files record => { record with files },
    .of "lanes" (.list laneReading) fun lanes record => { record with lanes }]

/-- The descriptor of a text. -/
def ofText? (text : String) : Option Descriptor := reading.ofText? text

end Descriptor

end SampleDemux
