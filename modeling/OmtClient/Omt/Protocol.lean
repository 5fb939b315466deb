import OmtClient.Lib.Bytes

/-!
# The OMT wire transport

`crates/omt-protocol/src/lib.rs`: the fixed frame header and the extended video
and audio headers, with every bound the receiver checks before it allocates.

The two floating-point checks are stated on the numbers they decide. A rate of
two positive 32-bit integers is at most 60.0 as a double exactly when it is as a
fraction, because the next double after 60.0 is closer than any such fraction.
The aspect ratio is kept as its bits: the finite values in 0.0..=10.0 are the
bit patterns up to that of 10.0, and minus zero.
-/

namespace OmtClient.Omt

open OmtClient.Lib

def headerSize : Nat := 16
def videoHeaderSize : Nat := 32
def audioHeaderSize : Nat := 24
def videoMaxSize : Nat := 10 * 1024 * 1024
def audioMaxSize : Nat := 1024 * 1024
def metadataMaxSize : Nat := 64 * 1024

/-- `CODEC_VMX1`. -/
def codecVmx1 : Int := 0x31584d56
/-- `CODEC_FPA1`. -/
def codecFpa1 : Int := 0x31415046

inductive FrameType
  | metadata
  | video
  | audio
  deriving DecidableEq, Repr

structure FrameHeader where
  frameType : FrameType
  timestamp : Int
  metadataLength : Nat
  dataLength : Nat
  deriving DecidableEq, Repr

structure VideoHeader where
  codec : Int
  width : Int
  height : Int
  frameRateN : Int
  frameRateD : Int
  /-- The bits of the single-precision aspect ratio. -/
  aspectRatio : UInt32
  flags : UInt32
  colorSpace : Int
  deriving DecidableEq, Repr

structure AudioHeader where
  codec : Int
  sampleRate : Int
  samplesPerChannel : Int
  channels : Int
  activeChannels : UInt32
  deriving DecidableEq, Repr

inductive ProtoKind
  | truncated
  | unsupported
  | oversized
  | invalid
  deriving DecidableEq, Repr

/-- A protocol error: its kind and its detail. -/
structure ProtoError where
  kind : ProtoKind
  detail : String
  deriving DecidableEq, Repr

def ProtoKind.text : ProtoKind → String
  | .truncated => "truncated"
  | .unsupported => "unsupported"
  | .oversized => "oversized"
  | .invalid => "invalid"

def ProtoError.text (e : ProtoError) : String := e.kind.text ++ " " ++ e.detail

/-- `count` bytes of `data` from `start` on, as an unsigned number. -/
def leAt (data : Bytes) (start count : Nat) : Nat := leNat ((data.drop start).take count)

def le32 (data : Bytes) (start : Nat) : UInt32 := UInt32.ofNat (leAt data start 4)

def leI32 (data : Bytes) (start : Nat) : Int := signed 32 (leAt data start 4)

/-- What a frame type byte announces: the type, the size of its extended header
and the largest payload. -/
def frameKind (b : Byte) : Option (FrameType × Nat × Nat) :=
  if b = 1 then some (.metadata, 0, metadataMaxSize)
  else if b = 2 then some (.video, videoHeaderSize, videoMaxSize)
  else if b = 4 then some (.audio, audioHeaderSize, audioMaxSize)
  else none

def parseFrameHeader (data : Bytes) : Except ProtoError FrameHeader :=
  if data.length < headerSize then .error ⟨.truncated, "OMT frame header"⟩
  else if data.getD 0 0 ≠ 1 then .error ⟨.unsupported, "OMT frame version"⟩
  else
    match frameKind (data.getD 1 0) with
    | none => .error ⟨.unsupported, "OMT frame type"⟩
    | some (frameType, extension, maximum) =>
      let metadataLength := leAt data 10 2
      let dataLength := leAt data 12 4
      if dataLength < extension then
        .error ⟨.invalid, "OMT frame is shorter than its extended header"⟩
      else if maximum < dataLength - extension then .error ⟨.oversized, "OMT frame payload"⟩
      else if dataLength - extension < metadataLength then
        .error ⟨.invalid, "OMT metadata length exceeds the payload"⟩
      else
        .ok { frameType, timestamp := signed 64 (leAt data 2 8), metadataLength, dataLength }

/-- `(0.0..=10.0)` contains the finite value with these bits. -/
def aspectRatioOk (bits : UInt32) : Bool := bits ≤ 0x41200000 || bits == 0x80000000

def parseVideoHeader (frame : FrameHeader) (data : Bytes) : Except ProtoError VideoHeader :=
  if frame.frameType ≠ .video ∨ data.length < videoHeaderSize then
    .error ⟨.truncated, "OMT video header"⟩
  else
    let v : VideoHeader :=
      { codec := leI32 data 0, width := leI32 data 4, height := leI32 data 8
        frameRateN := leI32 data 12, frameRateD := leI32 data 16, aspectRatio := le32 data 20
        flags := le32 data 24, colorSpace := leI32 data 28 }
    if v.width < 16 ∨ 1920 < v.width ∨ v.height < 16 ∨ 1080 < v.height ∨ v.frameRateN ≤ 0 ∨
        v.frameRateD ≤ 0 then
      .error ⟨.unsupported, "OMT video dimensions or frame rate"⟩
    else if 60 * v.frameRateD < v.frameRateN ∨ v.codec ≠ codecVmx1 then
      .error ⟨.unsupported, "OMT video format"⟩
    else if !aspectRatioOk v.aspectRatio ∨ (v.colorSpace ≠ 0 ∧ v.colorSpace ≠ 601 ∧
        v.colorSpace ≠ 709) ∨ v.flags &&& ~~~31 ≠ 0 then
      .error ⟨.unsupported, "OMT video properties"⟩
    else .ok v

/-- `u32::count_ones`. -/
def countOnes (v : UInt32) : Nat := (List.range 32).countP fun i => v.toNat.testBit i

/-- The active-channel bits a channel count allows. -/
def allowedChannels (channels : Nat) : UInt32 :=
  if channels = 32 then 0xFFFFFFFF else ((1 : UInt32) <<< UInt32.ofNat channels) - 1

def parseAudioHeader (frame : FrameHeader) (data : Bytes) : Except ProtoError AudioHeader :=
  if frame.frameType ≠ .audio ∨ data.length < audioHeaderSize then
    .error ⟨.truncated, "OMT audio header"⟩
  else
    let a : AudioHeader :=
      { codec := leI32 data 0, sampleRate := leI32 data 4, samplesPerChannel := leI32 data 8
        channels := leI32 data 12, activeChannels := le32 data 16 }
    if a.codec ≠ codecFpa1 ∨ a.sampleRate < 8000 ∨ 192000 < a.sampleRate ∨ a.channels < 1 ∨
        32 < a.channels ∨ a.samplesPerChannel < 1 then
      .error ⟨.unsupported, "OMT audio format"⟩
    else
      let channels := a.channels.natAbs
      let samples := a.samplesPerChannel.natAbs
      if audioMaxSize < samples * channels * 4 then .error ⟨.oversized, "decoded audio"⟩
      else if a.activeChannels &&& ~~~allowedChannels channels ≠ 0 then
        .error ⟨.invalid, "active audio channel"⟩
      else if frame.dataLength < audioHeaderSize then .error ⟨.invalid, "audio payload"⟩
      else if countOnes a.activeChannels * samples * 4 + frame.metadataLength ≠
          frame.dataLength - audioHeaderSize then
        .error ⟨.invalid, "OMT planar audio payload length"⟩
      else .ok a

end OmtClient.Omt
