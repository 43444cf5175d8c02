/-
This file models `hdf5rawWaveformIo.c`, the event files of the host tools.

Events are kept in chunks of `nWfmPerChunk`. A chunk is a dataset with a row for
each channel, in which every event has `nPt` columns. The library behind it is a
map from names to two-dimensional arrays, so the layout on disk and the types of
the library are left out. Sizes are 64 bits wide and wrap.
-/

import K71GbE.Hdf5.Store
import K71GbE.Host.Fmc112

namespace K71GbE

open Hdf5

/-- `SCOPE_DATA_TYPE`. -/
abbrev ScopeData := Int16

/-- `struct waveform_attribute`, every `double` as its 64 bits. -/
structure WaveformAttribute where
  chMask : UInt32
  nPt : UInt64
  nFrames : UInt64
  dt : UInt64
  t0 : UInt64
  ymult : Vector UInt64 Host.scopeNch
  yoff : Vector UInt64 Host.scopeNch
  yzero : Vector UInt64 Host.scopeNch
deriving DecidableEq

/-- The contents of an event file: the attributes of the root group and the datasets in it. -/
structure EventFile where
  nEvents : UInt64
  nWfmPerChunk : UInt64
  nCh : UInt64
  waveformAttributes : Option WaveformAttribute
  root : Store (List Char) ScopeData

/-- `struct waveform_file`. -/
structure WaveformFile where
  waveFid : EventFile
  nPt : UInt64
  nCh : UInt64
  nWfmPerChunk : UInt64
  nEvents : UInt64

/-- `struct waveform_event`. -/
structure WaveformEvent where
  eventId : UInt64
  wavBuf : List ScopeData
deriving DecidableEq

/-- `NAME_BUF_SIZE`. -/
def nameBufSize : Nat := 256

/-- What `snprintf` leaves in a buffer of that size. -/
def snprintf (text : List Char) : List Char := text.take (nameBufSize - 1)

/-- `%zd`: the bits of a size as a signed number. -/
def zd (value : UInt64) : List Char := (Int.repr value.toBitVec.toInt).toList

/-- The name that a path leads to from the root group, or from the file. -/
def atRoot : List Char → List Char
  | '/' :: name => name
  | name => name

namespace WaveformFile

/-- `open_file`. -/
def openFile (nWfmPerChunk nCh : UInt64) : WaveformFile where
  waveFid :=
    { nEvents := 0
      nWfmPerChunk := nWfmPerChunk
      nCh := nCh
      waveformAttributes := none
      root := .empty }
  nPt := UInt64.ofNat Host.scopeMemLengthMax
  nCh := nCh
  nWfmPerChunk := nWfmPerChunk
  nEvents := 0

/-- `open_file_for_read`. -/
def openFileForRead (waveFid : EventFile) : WaveformFile where
  waveFid := waveFid
  nPt := UInt64.ofNat Host.scopeMemLengthMax
  nCh := waveFid.nCh
  nWfmPerChunk := waveFid.nWfmPerChunk
  nEvents := waveFid.nEvents

/-- `flush_file`: the count of events goes to the file. -/
def flushFile (wavFile : WaveformFile) : WaveformFile × Int :=
  ({ wavFile with waveFid := { wavFile.waveFid with nEvents := wavFile.nEvents } }, 0)

/-- `close_file`: what stays is the file. -/
def closeFile (wavFile : WaveformFile) : EventFile × Int := (wavFile.waveFid, 0)

/-- `write_waveform_attribute_in_file_header`. The attribute cannot be created twice. -/
def writeWaveformAttributeInFileHeader (wavFile : WaveformFile) (wavAttr : WaveformAttribute) :
    WaveformFile × Int :=
  match wavFile.waveFid.waveformAttributes with
  | none =>
    ({ wavFile with
        waveFid := { wavFile.waveFid with waveformAttributes := some wavAttr }
        nPt := wavAttr.nPt }, 0)
  | some _ => ({ wavFile with nPt := wavAttr.nPt }, -1)

/-- `read_waveform_attribute_in_file_header`, into a record that is there already. -/
def readWaveformAttributeInFileHeader (wavFile : WaveformFile) (wavAttr : WaveformAttribute) :
    WaveformFile × WaveformAttribute × Int :=
  match wavFile.waveFid.waveformAttributes with
  | some stored => ({ wavFile with nPt := stored.nPt }, stored, 0)
  | none => ({ wavFile with nPt := wavAttr.nPt }, wavAttr, -1)

/-- `eventId / nWfmPerChunk`. -/
def chunkId (wavFile : WaveformFile) (eventId : UInt64) : UInt64 := eventId / wavFile.nWfmPerChunk

/-- `eventId % nWfmPerChunk`. -/
def inChunkId (wavFile : WaveformFile) (eventId : UInt64) : UInt64 :=
  eventId % wavFile.nWfmPerChunk

/-- The name of a chunk's dataset as `write_event` has it. -/
def writeName (wavFile : WaveformFile) (eventId : UInt64) : List Char :=
  snprintf ('C' :: zd (wavFile.chunkId eventId))

/-- The path of a chunk's dataset as `read_event` has it. -/
def readName (wavFile : WaveformFile) (eventId : UInt64) : List Char :=
  snprintf ('/' :: 'C' :: zd (wavFile.chunkId eventId))

/-- The rectangle of an event, `slabOff` and `slabDims`. -/
def slab (wavFile : WaveformFile) (eventId : UInt64) : Slab where
  row := 0
  column := (wavFile.inChunkId eventId * wavFile.nPt).toNat
  rows := wavFile.nCh.toNat
  columns := wavFile.nPt.toNat

/-- `write_event_create_dataset`. -/
def writeEventCreateDataset (wavFile : WaveformFile) (buf : List Char) :
    Store (List Char) ScopeData × Option (List Char) :=
  wavFile.waveFid.root.create (atRoot buf) wavFile.nCh.toNat
    (wavFile.nPt * wavFile.nWfmPerChunk).toNat 0

/-- The dataset that `write_event` writes to. The first event of a chunk creates it; another one
creates it when it cannot be opened. -/
def chunkDataset (wavFile : WaveformFile) (eventId : UInt64) :
    Store (List Char) ScopeData × Option (List Char) :=
  let buf := wavFile.writeName eventId
  if wavFile.inChunkId eventId = 0 then wavFile.writeEventCreateDataset buf
  else
    match wavFile.waveFid.root.find (atRoot buf) with
    | none => wavFile.writeEventCreateDataset buf
    | some chDid => (wavFile.waveFid.root, some chDid)

/-- `write_event`. -/
def writeEvent (wavFile : WaveformFile) (wavEvent : WaveformEvent) : WaveformFile × Int :=
  let opened := wavFile.chunkDataset wavEvent.eventId
  let written := opened.1.write opened.2 (wavFile.slab wavEvent.eventId) wavEvent.wavBuf
  ({ wavFile with
      waveFid := { wavFile.waveFid with root := written.1 }
      nEvents := wavFile.nEvents + 1 }, written.2)

/-- `read_event`, into the buffer of the event. -/
def readEvent (wavFile : WaveformFile) (wavEvent : WaveformEvent) : List ScopeData × Int :=
  wavFile.waveFid.root.read
    (wavFile.waveFid.root.find (atRoot (wavFile.readName wavEvent.eventId)))
    (wavFile.slab wavEvent.eventId) wavEvent.wavBuf

/-- `get_number_of_events`. -/
def getNumberOfEvents (wavFile : WaveformFile) : UInt64 := wavFile.nEvents

end WaveformFile

end K71GbE
