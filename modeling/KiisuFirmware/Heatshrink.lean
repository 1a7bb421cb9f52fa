import Mathlib.Tactic
import KiisuFirmware.Word

/-!
# The heatshrink codec

The codec is a library of its own (`heatshrink_encoder.h`, `heatshrink_decoder.h`), here given by
its calls. `HeatshrinkDecoder.Ok` says what its users rely on: a poll stops short of the room it has
only when everything that was sunk is used up, and a sink takes what its buffer has room for. The
encoder (`HeatshrinkEncoder.Ok`) gives out its encoding piece by piece and keeps some of it back
until it is told that the input is complete.
-/

namespace KiisuFirmware

variable {σ : Type}

inductive HSDSinkRes
  | ok
  | full
  | errorNull
  deriving DecidableEq

inductive HSDPollRes
  | empty
  | more
  | errorNull
  | errorUnknown
  deriving DecidableEq

inductive HSDFinishRes
  | done
  | more
  | errorNull
  deriving DecidableEq

/-- The error codes are negative. -/
def HSDSinkRes.failed (res : HSDSinkRes) : Bool := res = .errorNull

def HSDPollRes.failed (res : HSDPollRes) : Bool := res = .errorNull ∨ res = .errorUnknown

def HSDFinishRes.failed (res : HSDFinishRes) : Bool := res = .errorNull

/-- A sink returns how many bytes it took, a poll the bytes it gave. -/
structure HeatshrinkDecoder (σ : Type) where
  reset : σ → σ
  sink : σ → List UInt8 → HSDSinkRes × ℕ × σ
  poll : σ → ℕ → HSDPollRes × List UInt8 × σ
  finish : σ → HSDFinishRes × σ

namespace HeatshrinkDecoder

/-- A decoder with an input buffer of this size: `held` counts the bytes in it, and `yields` is all
that polls will give once these bytes have been sunk as well. -/
structure Ok (decoder : HeatshrinkDecoder σ) (inputBufferSize : ℕ) (held : σ → ℕ)
    (yields : σ → List UInt8 → List UInt8) : Prop where
  sink_ok : ∀ s data, data ≠ [] → held s < inputBufferSize → (decoder.sink s data).1 = .ok ∧
    (decoder.sink s data).2.1 = min (inputBufferSize - held s) data.length
  sink_full : ∀ s data, data ≠ [] → inputBufferSize ≤ held s →
    (decoder.sink s data).1 = .full ∧ (decoder.sink s data).2.1 = 0
  sink_yields : ∀ s data rest, yields (decoder.sink s data).2.2 rest =
    yields s (data.take (decoder.sink s data).2.1 ++ rest)
  poll_res : ∀ s n, (decoder.poll s n).1 = .empty ∨ (decoder.poll s n).1 = .more
  poll_length : ∀ s n, (decoder.poll s n).2.1.length ≤ n
  poll_yields : ∀ s n rest,
    yields s rest = (decoder.poll s n).2.1 ++ yields (decoder.poll s n).2.2 rest
  poll_more : ∀ s n, (decoder.poll s n).1 = .more → (decoder.poll s n).2.1.length = n
  poll_empty : ∀ s n, (decoder.poll s n).1 = .empty →
    held (decoder.poll s n).2.2 = 0 ∧ yields (decoder.poll s n).2.2 [] = []

/-- What it decodes to from the start; once all input is used up it is done. -/
structure Expands (decoder : HeatshrinkDecoder σ) (held : σ → ℕ)
    (yields : σ → List UInt8 → List UInt8) (expand : List UInt8 → List UInt8) : Prop where
  reset_held : ∀ s, held (decoder.reset s) = 0
  reset_yields : ∀ s bytes, yields (decoder.reset s) bytes = expand bytes
  expand_nil : expand [] = []
  finish : ∀ s, held s = 0 → yields s [] = [] → (decoder.finish s).1 = .done

end HeatshrinkDecoder

/-! ## The encoder -/

inductive HSESinkRes
  | ok
  | errorNull
  | errorMisuse
  deriving DecidableEq

inductive HSEPollRes
  | empty
  | more
  | errorNull
  | errorMisuse
  deriving DecidableEq

inductive HSEFinishRes
  | done
  | more
  | errorNull
  deriving DecidableEq

def HSEPollRes.failed (res : HSEPollRes) : Bool := res = .errorNull ∨ res = .errorMisuse

def HSEFinishRes.failed (res : HSEFinishRes) : Bool := res = .errorNull

structure HeatshrinkEncoder (τ : Type) where
  reset : τ → τ
  sink : τ → List UInt8 → HSESinkRes × ℕ × τ
  poll : τ → ℕ → HSEPollRes × List UInt8 × τ
  finish : τ → HSEFinishRes × τ

namespace HeatshrinkEncoder

variable {τ : Type}

/-- An encoder for this encoding. `going s input output` is a state that has been given this input
and has given this output, `hungry` one that takes more input, and `finishing s output` one that has
been told that the input is complete and has this output left. -/
structure Ok (encoder : HeatshrinkEncoder τ) (compress : List UInt8 → List UInt8)
    (going : τ → List UInt8 → List UInt8 → Prop) (hungry : τ → Prop)
    (finishing : τ → List UInt8 → Prop) : Prop where
  reset : ∀ s, going (encoder.reset s) [] [] ∧ hungry (encoder.reset s)
  sink : ∀ {s input output}, going s input output → hungry s → ∀ data, data ≠ [] →
    (encoder.sink s data).1 = .ok ∧ 0 < (encoder.sink s data).2.1 ∧
      (encoder.sink s data).2.1 ≤ data.length ∧
      going (encoder.sink s data).2.2 (input ++ data.take (encoder.sink s data).2.1) output
  /-- There is no polling into no room. -/
  poll_zero : ∀ s, encoder.poll s 0 = (.errorMisuse, [], s)
  poll : ∀ {s input output}, going s input output → ∀ n, 0 < n →
    (encoder.poll s n).2.1.length ≤ n ∧
      going (encoder.poll s n).2.2 input (output ++ (encoder.poll s n).2.1) ∧
      ((encoder.poll s n).1 = .empty ∧ hungry (encoder.poll s n).2.2 ∨
        (encoder.poll s n).1 = .more ∧ (encoder.poll s n).2.1.length = n)
  /-- What was given out is the beginning of the encoding, whatever else will be given. -/
  held_back : ∀ {s input output}, going s input output → ∀ more, input ++ more ≠ [] →
    ∃ rest, rest ≠ [] ∧ compress (input ++ more) = output ++ rest
  finish : ∀ {s input output}, going s input output → input ≠ [] →
    (encoder.finish s).1 = .more ∧
      ∃ rest, compress input = output ++ rest ∧ finishing (encoder.finish s).2 rest
  poll_finishing : ∀ {s rest}, finishing s rest → ∀ n, 0 < n →
    ((encoder.poll s n).1 = .empty ∨ (encoder.poll s n).1 = .more) ∧
      (encoder.poll s n).2.1 = rest.take n ∧ finishing (encoder.poll s n).2.2 (rest.drop n)
  finish_finishing : ∀ {s rest}, finishing s rest →
    (encoder.finish s).1 = (if rest = [] then .done else .more) ∧
      finishing (encoder.finish s).2 rest

end HeatshrinkEncoder

end KiisuFirmware

/-!
## Decoding a compressed stream

`CompressStreamDecoder` of `compress.c`, which decodes as many bytes as it is asked for. Between two
reads the decoder keeps what it has not given out yet. Every loop of the source is one that may
never end; a function that is not through after the rounds it is given returns nothing.
-/

namespace KiisuFirmware

variable {σ ρ : Type}

/-- A `CompressIoCallback` that reads: what it writes to the buffer it is given. -/
abbrev CompressReadCb (ρ : Type) := ρ → ℕ → List UInt8 × ρ

structure CompressStreamDecoder (σ ρ : Type) where
  decoder : σ
  streamPosition : ℕ
  decodeBufferSize : ℕ
  /-- `decode_buffer[0..decode_buffer_position)`. -/
  decodeBuffer : List UInt8
  readContext : ρ

/-- What `compress_decode_stream_chunk` works on. -/
structure DecodeChunk (σ ρ : Type) where
  sd : CompressStreamDecoder σ ρ
  /-- What is in the output buffer. -/
  decompressedChunk : List UInt8
  decompChunkSize : ℕ
  canSinkMore : Bool
  canReadMore : Bool

section Decoder

variable (heatshrink : HeatshrinkDecoder σ) (readCb : CompressReadCb ρ)

/-- The loop that polls for as long as there is more and room for it. -/
def pollChunk : ℕ → σ → ℕ → Option (HSDPollRes × List UInt8 × σ)
  | 0, _, _ => none
  | rounds + 1, decoder, decompChunkSize =>
    let p := heatshrink.poll decoder decompChunkSize
    let decompChunkSize := decompChunkSize - p.2.1.length
    if p.1.failed then some p
    else if p.1 = .more ∧ decompChunkSize ≠ 0 then
      (pollChunk rounds p.2.2 decompChunkSize).map fun r => (r.1, p.2.1 ++ r.2.1, r.2.2)
    else some p

/-- More data from the input, if there may be any and the buffer has room. -/
def readChunk (chunk : DecodeChunk σ ρ) : DecodeChunk σ ρ :=
  let sd := chunk.sd
  if chunk.canReadMore ∧ sd.decodeBuffer.length < sd.decodeBufferSize then
    let r := readCb sd.readContext (sd.decodeBufferSize - sd.decodeBuffer.length)
    { chunk with
      sd := { sd with decodeBuffer := sd.decodeBuffer ++ r.1, readContext := r.2 }
      canReadMore := decide (0 < r.1.length) }
  else chunk

/-- The loop that sinks what was read, and whether it failed. -/
def sinkChunk : ℕ → DecodeChunk σ ρ → Option (Bool × DecodeChunk σ ρ)
  | 0, _ => none
  | rounds + 1, chunk =>
    let sd := chunk.sd
    if sd.decodeBuffer ≠ [] ∧ chunk.canSinkMore then
      let s := heatshrink.sink sd.decoder sd.decodeBuffer
      let chunk := { chunk with canSinkMore := decide (s.1 = HSDSinkRes.ok) }
      if s.1.failed then some (true, { chunk with sd := { sd with decoder := s.2.2 } })
      else
        sinkChunk rounds { chunk with
          sd := { sd with decoder := s.2.2, decodeBuffer := sd.decodeBuffer.drop s.2.1 } }
    else some (false, chunk)

/-- The outer loop; what it returns is whether the output buffer is full. -/
def decodeChunkLoop : ℕ → DecodeChunk σ ρ → Option (Bool × DecodeChunk σ ρ)
  | 0, _ => none
  | rounds + 1, chunk =>
    (pollChunk heatshrink (rounds + 1) chunk.sd.decoder chunk.decompChunkSize).bind fun p =>
      let chunk := { chunk with
        sd := { chunk.sd with decoder := p.2.2 }
        decompressedChunk := chunk.decompressedChunk ++ p.2.1
        decompChunkSize := chunk.decompChunkSize - p.2.1.length }
      if p.1.failed then some (false, chunk)
      else if chunk.decompChunkSize = 0 then some (true, chunk)
      else
        (sinkChunk heatshrink (rounds + 2) (readChunk readCb chunk)).bind fun s =>
          if s.1 then some (decide (s.2.decompChunkSize = 0), s.2) else decodeChunkLoop rounds s.2

def compressDecodeStreamChunk (rounds : ℕ) (sd : CompressStreamDecoder σ ρ) (decompChunkSize : ℕ) :
    Option (Bool × DecodeChunk σ ρ) :=
  decodeChunkLoop heatshrink readCb rounds ⟨sd, [], decompChunkSize, true, true⟩

/-- The result, the bytes in the output buffer and the stream. -/
def compressStreamDecoderRead (rounds : ℕ) (stream : CompressStreamDecoder σ ρ)
    (dataOutSize : ℕ) : Option (Bool × List UInt8 × CompressStreamDecoder σ ρ) :=
  (compressDecodeStreamChunk heatshrink readCb rounds stream dataOutSize).map fun r =>
    let sd := r.2.sd
    (r.1, r.2.decompressedChunk,
      if r.1 then { sd with streamPosition := sizeT (sd.streamPosition + dataOutSize) } else sd)

end Decoder

end KiisuFirmware
