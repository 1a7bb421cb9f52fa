import KiisuFirmware.Heatshrink
import KiisuFirmware.Memory
import KiisuFirmware.Word

/-!
# Compressing a piece of memory

`compress_encode` and `compress_decode` of `compress.c`. What is compressed stands behind a header
of four bytes; where that does not pay or does not fit, the data itself stands behind a zero byte.
Memory has no end here: that an access stays in a buffer is something to prove. A function that is
not through after the rounds it is given returns nothing, and so does a check that fails.
-/

namespace KiisuFirmware

variable {σ τ : Type}

/-- The size of a `CompressHeader`. -/
def COMPRESS_HEADER_SIZE : ℕ := 4

def COMPRESS_ICON_ENCODED_BUFF_SIZE : ℕ := 256

/-- `is_compressed`, `reserved` and `compressed_buff_size`, the lower byte first. -/
def compressHeader (compressedBuffSize : ℕ) : List UInt8 :=
  [1, 0, UInt8.ofNat compressedBuffSize, UInt8.ofNat (compressedBuffSize / 256)]

structure CompressResult where
  result : Bool
  dataIn : Memory
  dataOut : Memory
  dataResSize : ℕ

/-! ## Encoding -/

structure CompressEncode (τ : Type) where
  encoder : τ
  dataOut : Memory
  resBuffSize : ℕ
  encodeFailed : Bool

section Encode

variable (heatshrink : HeatshrinkEncoder τ) (dataIn : Memory) (dataInSize dataOutSize : ℕ)

/-- One poll into what is left of the output, and its result. -/
def encodePoll (encode : CompressEncode τ) : HSEPollRes × CompressEncode τ :=
  let p := heatshrink.poll encode.encoder (sizeT ((dataOutSize : ℤ) - encode.resBuffSize))
  if p.1.failed then (p.1, { encode with encoder := p.2.2, encodeFailed := true })
  else
    (p.1, { encode with
      encoder := p.2.2
      dataOut := encode.dataOut.write encode.resBuffSize p.2.1
      resBuffSize := sizeT (encode.resBuffSize + p.2.1.length) })

/-- Poll while there is more. -/
def encodePollLoop : ℕ → CompressEncode τ → Option (CompressEncode τ)
  | 0, _ => none
  | rounds + 1, encode =>
    let p := encodePoll heatshrink dataOutSize encode
    if p.1.failed then some p.2
    else if p.1 = .more then encodePollLoop rounds p.2
    else some p.2

/-- Sink data to the encoding buffer; how much was read of it. -/
def encodeSinkLoop (polls : ℕ) : ℕ → ℕ → CompressEncode τ → Option (ℕ × CompressEncode τ)
  | 0, _, _ => none
  | rounds + 1, sunk, encode =>
    if sunk < dataInSize ∧ !encode.encodeFailed then
      let s := heatshrink.sink encode.encoder (dataIn.bytes sunk (dataInSize - sunk))
      if s.1 ≠ .ok then some (sunk, { encode with encoder := s.2.2, encodeFailed := true })
      else
        (encodePollLoop heatshrink dataOutSize polls { encode with encoder := s.2.2 }).bind
          fun encode => encodeSinkLoop polls rounds (sunk + s.2.1) encode
    else some (sunk, encode)

/-- Poll until the encoder is done. -/
def encodeFinishLoop : ℕ → CompressEncode τ → Option (CompressEncode τ)
  | 0, _ => none
  | rounds + 1, encode =>
    let p := encodePoll heatshrink dataOutSize encode
    if p.1.failed then some p.2
    else
      let f := heatshrink.finish p.2.encoder
      let encode := { p.2 with encoder := f.2 }
      if f.1 ≠ .done then encodeFinishLoop rounds encode else some encode

/-- Notify sinking complete and poll encoded data. -/
def encodeFinish (rounds : ℕ) (encode : CompressEncode τ) : Option (CompressEncode τ) :=
  let f := heatshrink.finish encode.encoder
  if f.1.failed then some { encode with encoder := f.2, encodeFailed := true }
  else encodeFinishLoop heatshrink dataOutSize rounds { encode with encoder := f.2 }

/-- Write the header if compression is efficient. Otherwise, write a header and original data. -/
def encodeOutput (dataIn : Memory) (encode : CompressEncode τ) : CompressResult :=
  if !encode.encodeFailed && decide (encode.resBuffSize < sizeT (dataInSize + 1)) then
    let compressedBuffSize := sizeT ((encode.resBuffSize : ℤ) - COMPRESS_HEADER_SIZE) % 2 ^ 16
    ⟨true, dataIn, encode.dataOut.write 0 (compressHeader compressedBuffSize), encode.resBuffSize⟩
  else if dataInSize < dataOutSize then
    let data := dataIn.read 0 dataInSize
    ⟨true, data.2, (encode.dataOut.write 0 [0]).write 1 data.1, sizeT (dataInSize + 1)⟩
  else ⟨false, dataIn, encode.dataOut, 0⟩

def compressEncode (rounds : ℕ) (encoder : τ) (dataOut : Memory) : Option CompressResult :=
  if dataInSize = 0 then none
  else
    (encodeSinkLoop heatshrink dataIn dataInSize dataOutSize rounds rounds 0
        ⟨heatshrink.reset encoder, dataOut, COMPRESS_HEADER_SIZE, false⟩).bind fun r =>
      (encodeFinish heatshrink dataOutSize rounds r.2).map
        (encodeOutput dataInSize dataOutSize (dataIn.touch 0 r.1))

end Encode

/-! ## Decoding -/

structure MemoryStreamState where
  memory : Memory
  dataPtr : ℕ
  dataSize : ℕ

/-- `memory_stream_io_callback` of a source. -/
def memoryStreamRead (state : MemoryStreamState) (size : ℕ) : List UInt8 × MemoryStreamState :=
  let size := if state.dataSize < size then state.dataSize else size
  let r := state.memory.read state.dataPtr size
  (r.1, ⟨r.2, state.dataPtr + size, state.dataSize - size⟩)

/-- `memory_stream_io_callback` of a destination. -/
def memoryStreamWrite (state : MemoryStreamState) (data : List UInt8) : ℕ × MemoryStreamState :=
  let size := if state.dataSize < data.length then state.dataSize else data.length
  (size, ⟨state.memory.write state.dataPtr (data.take size), state.dataPtr + size,
    state.dataSize - size⟩)

section Decode

variable (heatshrink : HeatshrinkDecoder σ) (workBufferSize : ℕ)

/-- `compress_decoder_poll`. -/
def compressDecoderPoll : ℕ → σ → MemoryStreamState → Option (Bool × σ × MemoryStreamState)
  | 0, _, _ => none
  | rounds + 1, decoder, output =>
    let p := heatshrink.poll decoder workBufferSize
    if p.1.failed then some (false, p.2.2, output)
    else
      let w := memoryStreamWrite output p.2.1
      if w.1 ≠ p.2.1.length then some (false, p.2.2, w.2)
      else if p.1 = .more then compressDecoderPoll rounds p.2.2 w.2
      else some (true, p.2.2, w.2)

/-- Sink the data of one read to the decoding buffer. -/
def decodeSinkLoop (polls : ℕ) :
    ℕ → σ → List UInt8 → MemoryStreamState → Option (Bool × σ × MemoryStreamState)
  | 0, _, _, _ => none
  | rounds + 1, decoder, data, output =>
    if data = [] then some (true, decoder, output)
    else
      let s := heatshrink.sink decoder data
      if s.1.failed then some (false, s.2.2, output)
      else
        (compressDecoderPoll heatshrink workBufferSize polls s.2.2 output).bind fun p =>
          if p.1 then decodeSinkLoop polls rounds p.2.1 (data.drop s.2.1) p.2.2 else some p

/-- Read by read, until a read returns nothing. -/
def decodeReadLoop (polls : ℕ) : ℕ → σ → MemoryStreamState → MemoryStreamState →
    Option ((Bool × σ × MemoryStreamState) × MemoryStreamState)
  | 0, _, _, _ => none
  | rounds + 1, decoder, input, output =>
    let r := memoryStreamRead input workBufferSize
    (decodeSinkLoop heatshrink workBufferSize polls polls decoder r.1 output).bind fun s =>
      if s.1 ∧ r.1 ≠ [] then decodeReadLoop polls rounds s.2.1 r.2 s.2.2 else some (s, r.2)

/-- Notify sinking complete and poll decoded data. -/
def decodeFinishLoop (polls : ℕ) : ℕ → σ → MemoryStreamState →
    Option (Bool × MemoryStreamState)
  | 0, _, _ => none
  | rounds + 1, decoder, output =>
    let f := heatshrink.finish decoder
    if f.1 = .done then some (true, output)
    else if f.1.failed then some (false, output)
    else
      (compressDecoderPoll heatshrink workBufferSize polls f.2 output).bind fun p =>
        if p.1 then decodeFinishLoop polls rounds p.2.1 p.2.2 else some (false, p.2.2)

/-- The result, the input and the output. -/
def compressDecodeStreamInternal (rounds : ℕ) (decoder : σ) (input output : MemoryStreamState) :
    Option (Bool × MemoryStreamState × MemoryStreamState) :=
  (decodeReadLoop heatshrink workBufferSize rounds rounds decoder input output).bind fun r =>
    if r.1.1 then
      (decodeFinishLoop heatshrink workBufferSize rounds rounds r.1.2.1 r.1.2.2).map fun f =>
        (f.1, r.2, f.2)
    else some (false, r.2, r.1.2.2)

/-- `compress_decode`; the result size is only written on success. -/
def compressDecode (rounds : ℕ) (decoder : σ) (dataIn : Memory) (dataInSize : ℕ) (dataOut : Memory)
    (dataOutSize : ℕ) : Option CompressResult :=
  let header := dataIn.touch 0 1
  if header.byte 0 ≠ 0 then
    let header := header.touch 2 2
    let compressedBuffSize := (header.byte 2).toNat + 256 * (header.byte 3).toNat
    (compressDecodeStreamInternal heatshrink COMPRESS_ICON_ENCODED_BUFF_SIZE rounds
        (heatshrink.reset decoder) ⟨header, COMPRESS_HEADER_SIZE, compressedBuffSize⟩
        ⟨dataOut, 0, dataOutSize⟩).map fun r =>
      ⟨r.1, r.2.1.memory, r.2.2.memory, if r.1 then dataOutSize - r.2.2.dataSize else 0⟩
  else if sizeT ((dataInSize : ℤ) - 1) ≤ dataOutSize then
    let data := header.read 1 dataInSize
    some ⟨true, data.2, dataOut.write 0 data.1, sizeT ((dataInSize : ℤ) - 1)⟩
  else some ⟨false, header, dataOut, 0⟩

end Decode

end KiisuFirmware
