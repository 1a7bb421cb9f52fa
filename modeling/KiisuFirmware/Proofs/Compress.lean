import KiisuFirmware.Compress
import KiisuFirmware.Proofs.Heatshrink

/-!
# Compressing and back

While the encoder runs, what it has given out stands behind the header (`Encoding`). It gets stuck
just if its encoding does not fit behind the header (`encodeSinkLoop_spec`, `encodeFinish_spec`).
-/

namespace KiisuFirmware

variable {σ τ : Type}

/-! ## Encoding -/

section Encode

variable {heatshrink : HeatshrinkEncoder τ} {compress : List UInt8 → List UInt8}
  {going : τ → List UInt8 → List UInt8 → Prop} {hungry : τ → Prop}
  {finishing : τ → List UInt8 → Prop} {dataOutSize : ℕ}

/-- Up to where the encoder is let write: to the end of the output, or once around all memory where
the output has no room for a header. -/
def outputEnd (dataOutSize : ℕ) : ℕ := 4 + sizeT ((dataOutSize : ℤ) - 4)

theorem outputEnd_eq (h : 4 ≤ dataOutSize) (hsize : dataOutSize < 2 ^ 32) :
    outputEnd dataOutSize = dataOutSize := by
  unfold outputEnd sizeT
  omega

theorem room_eq {k : ℕ} (h : 4 + k ≤ outputEnd dataOutSize) :
    sizeT ((dataOutSize : ℤ) - sizeT ((4 + k : ℕ) : ℤ)) = outputEnd dataOutSize - (4 + k) := by
  unfold outputEnd at *
  unfold sizeT at *
  omega

/-- This much output was given. Where there is room for a header it stands behind it, and nothing
behind the end was written. -/
structure Encoding (dataOutSize : ℕ) (output : List UInt8) (encode : CompressEncode τ) : Prop where
  size : encode.resBuffSize = sizeT ((4 + output.length : ℕ) : ℤ)
  fits : 4 + output.length ≤ outputEnd dataOutSize
  bytes : 4 ≤ dataOutSize → encode.dataOut.bytes 4 output.length = output
  touched : 4 ≤ dataOutSize → encode.dataOut.touched ≤ dataOutSize

theorem Encoding.turn {output : List UInt8} {encode : CompressEncode τ}
    (henc : Encoding dataOutSize output encode) (encoder : τ) (encodeFailed : Bool) :
    Encoding dataOutSize output { encode with encoder, encodeFailed } :=
  ⟨henc.size, henc.fits, henc.bytes, henc.touched⟩

theorem encodePoll_stuck (hok : heatshrink.Ok compress going hungry finishing)
    {output : List UInt8} {encode : CompressEncode τ} (henc : Encoding dataOutSize output encode)
    (hfull : 4 + output.length = outputEnd dataOutSize) :
    encodePoll heatshrink dataOutSize encode =
      (.errorMisuse, { encode with encodeFailed := true }) := by
  have hroom : sizeT ((dataOutSize : ℤ) - encode.resBuffSize) = 0 := by
    rw [henc.size, room_eq henc.fits, hfull, Nat.sub_self]
  have hfailed : HSEPollRes.errorMisuse.failed = true := rfl
  simp only [encodePoll, hroom, hok.poll_zero, hfailed, if_true]

theorem encodePoll_adds (hsize : dataOutSize < 2 ^ 32) {output : List UInt8}
    {encode : CompressEncode τ} {n : ℕ} {res : HSEPollRes} {data : List UInt8} {encoder : τ}
    (henc : Encoding dataOutSize output encode)
    (hn : n = outputEnd dataOutSize - (4 + output.length))
    (hpoll : heatshrink.poll encode.encoder n = (res, data, encoder)) (hres : res.failed = false)
    (hdata : data.length ≤ n) :
    ∃ encode', encodePoll heatshrink dataOutSize encode = (res, encode') ∧
      encode'.encoder = encoder ∧ encode'.encodeFailed = encode.encodeFailed ∧
      Encoding dataOutSize (output ++ data) encode' := by
  have hroom : sizeT ((dataOutSize : ℤ) - encode.resBuffSize) = n := by
    rw [henc.size, room_eq henc.fits, hn]
  have hfits := henc.fits
  refine ⟨{ encode with
    encoder
    dataOut := encode.dataOut.write encode.resBuffSize data
    resBuffSize := sizeT (encode.resBuffSize + data.length) }, ?_, rfl, rfl, ?_⟩
  · simp only [encodePoll, hroom, hpoll, hres, Bool.false_eq_true, if_false]
  · have hlength : 4 + (output ++ data).length ≤ outputEnd dataOutSize := by
      rw [List.length_append]
      omega
    refine ⟨?_, hlength, fun hheader => ?_, fun hheader => ?_⟩
    · dsimp only
      rw [henc.size, List.length_append]
      unfold sizeT
      omega
    all_goals
      have hend := outputEnd_eq hheader hsize
      have hplace : encode.resBuffSize = 4 + output.length := by
        rw [henc.size, sizeT_natCast (by omega)]
      rw [List.length_append] at hlength
      dsimp only
      rw [hplace]
    · exact Memory.bytes_write_append 4 output data (henc.bytes hheader)
    · exact Memory.write_touched_le (henc.touched hheader) (by omega)

/-- The encoder goes on, with this input and this output. -/
structure Going (going : τ → List UInt8 → List UInt8 → Prop) (dataOutSize : ℕ)
    (input output : List UInt8) (encode : CompressEncode τ) : Prop where
  encoding : Encoding dataOutSize output encode
  going : going encode.encoder input output
  goes : encode.encodeFailed = false

/-- The output is full, and the encoder goes on. -/
structure Stuck (going : τ → List UInt8 → List UInt8 → Prop) (dataOutSize : ℕ)
    (input output : List UInt8) (encode : CompressEncode τ) : Prop where
  encoding : Encoding dataOutSize output encode
  going : going encode.encoder input output
  full : 4 + output.length = outputEnd dataOutSize
  failed : encode.encodeFailed = true

section Run

variable (hok : heatshrink.Ok compress going hungry finishing) (hsize : dataOutSize < 2 ^ 32)
include hok hsize

/-- The polls after a sink end: there is nothing more for now, or no more room. -/
theorem encodePollLoop_spec {input output : List UInt8} {encode : CompressEncode τ}
    (henc : Going going dataOutSize input output encode) {rounds : ℕ} (hrounds : 2 ≤ rounds) :
    ∃ output' encode', encodePollLoop heatshrink dataOutSize rounds encode = some encode' ∧
      (Going going dataOutSize input output' encode' ∧ hungry encode'.encoder ∨
        Stuck going dataOutSize input output' encode') := by
  obtain ⟨rounds, rfl⟩ := Nat.exists_eq_add_of_le hrounds
  have hstuck : ∀ {output : List UInt8} {encode : CompressEncode τ} (rounds : ℕ),
      Going going dataOutSize input output encode →
      4 + output.length = outputEnd dataOutSize →
      ∃ encode', encodePollLoop heatshrink dataOutSize (rounds + 1) encode = some encode' ∧
        Stuck going dataOutSize input output encode' := by
    intro output encode rounds henc hfull
    have hfailed : HSEPollRes.errorMisuse.failed = true := rfl
    refine ⟨{ encode with encodeFailed := true }, ?_, ?_⟩
    · rw [encodePollLoop, encodePoll_stuck hok henc.encoding hfull]
      simp only [hfailed, if_true]
    · exact ⟨henc.encoding.turn _ _, henc.going, hfull, rfl⟩
  have hfits := henc.encoding.fits
  rcases Nat.eq_or_lt_of_le hfits with hfull | hroom
  · obtain ⟨encode', hrun, hend⟩ := hstuck (1 + rounds) henc hfull
    rw [show 1 + rounds + 1 = 2 + rounds by omega] at hrun
    exact ⟨output, encode', hrun, .inr hend⟩
  · obtain ⟨n, hn⟩ : ∃ n, n = outputEnd dataOutSize - (4 + output.length) := ⟨_, rfl⟩
    obtain ⟨⟨res, data, encoder⟩, hp⟩ : ∃ p, p = heatshrink.poll encode.encoder n := ⟨_, rfl⟩
    obtain ⟨hlength, hgoing, hres⟩ := hok.poll henc.going n (by omega)
    rw [← hp] at hlength hgoing hres
    dsimp only at hlength hgoing hres
    have hgoes : res.failed = false := by
      rcases hres with ⟨rfl, -⟩ | ⟨rfl, -⟩ <;> rfl
    obtain ⟨encode', hpoll, rfl, hsame, hadds⟩ :=
      encodePoll_adds hsize henc.encoding hn hp.symm hgoes hlength
    have hgoing' : Going going dataOutSize input (output ++ data) encode' :=
      ⟨hadds, hgoing, hsame.trans henc.goes⟩
    rw [show 2 + rounds = rounds + 1 + 1 by omega, encodePollLoop, hpoll]
    simp only [hgoes, Bool.false_eq_true, if_false]
    rcases hres with ⟨hempty, hhungry⟩ | ⟨hmore, hall⟩
    · rw [if_neg (by rw [hempty]; decide)]
      exact ⟨_, encode', rfl, .inl ⟨hgoing', hhungry⟩⟩
    · rw [if_pos hmore]
      obtain ⟨encode'', hrun, hend⟩ := hstuck rounds hgoing' (by
        rw [List.length_append]
        omega)
      exact ⟨_, encode'', hrun, .inr hend⟩

theorem encodeSinkLoop_spec {dataIn : Memory} {data : List UInt8} {polls : ℕ} (hpolls : 2 ≤ polls)
    (hdata : dataIn.bytes 0 data.length = data) : ∀ (rounds : ℕ) {sunk : ℕ} {output : List UInt8}
    {encode : CompressEncode τ}, sunk ≤ data.length →
    Going going dataOutSize (data.take sunk) output encode → hungry encode.encoder →
    data.length - sunk < rounds →
    ∃ sunk' output' encode', sunk' ≤ data.length ∧
      encodeSinkLoop heatshrink dataIn data.length dataOutSize polls rounds sunk encode =
        some (sunk', encode') ∧
      (sunk' = data.length ∧ Going going dataOutSize data output' encode' ∨
        0 < sunk' ∧ Stuck going dataOutSize (data.take sunk') output' encode')
  | 0, _, _, _, _, _, _, hrounds => absurd hrounds (Nat.not_lt_zero _)
  | rounds + 1, sunk, output, encode, hle, henc, hhungry, hrounds => by
    by_cases hmore : sunk < data.length
    · rw [encodeSinkLoop, if_pos ⟨hmore, by rw [henc.goes]; rfl⟩]
      have hrest : dataIn.bytes sunk (data.length - sunk) = data.drop sunk := by
        have hdrop := @Memory.drop_bytes dataIn 0 data.length sunk hle
        rw [hdata, Nat.zero_add] at hdrop
        exact hdrop.symm
      have hne : data.drop sunk ≠ [] := by
        rw [ne_eq, List.drop_eq_nil_iff, not_le]
        exact hmore
      obtain ⟨hres, hpos, htaken, hgoing⟩ := hok.sink henc.going hhungry (data.drop sunk) hne
      rw [hrest]
      obtain ⟨s, hs⟩ : ∃ s, s = heatshrink.sink encode.encoder (data.drop sunk) := ⟨_, rfl⟩
      rw [← hs] at hres hpos htaken hgoing ⊢
      rw [List.length_drop] at htaken
      rw [← List.take_add] at hgoing
      have henc' : Going going dataOutSize (data.take (sunk + s.2.1)) output
          { encode with encoder := s.2.2 } :=
        ⟨henc.encoding.turn _ _, hgoing, henc.goes⟩
      obtain ⟨output', encode', hrun, hend⟩ := encodePollLoop_spec hok hsize henc' hpolls
      dsimp only
      rw [if_neg (by rw [hres]; decide), hrun, Option.bind_some]
      rcases hend with ⟨hgoing', hhungry'⟩ | hstuck
      · exact encodeSinkLoop_spec hpolls hdata rounds (by omega) hgoing' hhungry' (by omega)
      · obtain ⟨rounds, rfl⟩ := Nat.exists_eq_succ_of_ne_zero (n := rounds) (by omega)
        refine ⟨sunk + s.2.1, output', encode', by omega, ?_, .inr ⟨by omega, hstuck⟩⟩
        rw [encodeSinkLoop, if_neg]
        rw [hstuck.failed]
        exact fun h => absurd h.2 (by decide)
    · rw [encodeSinkLoop, if_neg fun h => hmore h.1]
      have hall : sunk = data.length := by omega
      rw [hall, List.take_length] at henc
      exact ⟨sunk, output, encode, hle, rfl, .inl ⟨hall, henc⟩⟩

/-- How the encoder leaves the output: the whole encoding is there, or it does not fit. -/
structure Encoded (compress : List UInt8 → List UInt8) (dataOutSize : ℕ) (data : List UInt8)
    (encode : CompressEncode τ) : Prop where
  fits : encode.encodeFailed = false ↔ 4 + (compress data).length ≤ outputEnd dataOutSize
  encoding : encode.encodeFailed = false → Encoding dataOutSize (compress data) encode
  touched : 4 ≤ dataOutSize → encode.dataOut.touched ≤ dataOutSize

omit hsize in
theorem encodeFinishLoop_stuck {data output rest : List UInt8} {encode : CompressEncode τ}
    (henc : Encoding dataOutSize output encode) (hfull : 4 + output.length = outputEnd dataOutSize)
    (hrest : rest ≠ []) (hdata : compress data = output ++ rest) (rounds : ℕ) :
    ∃ encode', encodeFinishLoop heatshrink dataOutSize (rounds + 1) encode = some encode' ∧
      Encoded compress dataOutSize data encode' := by
  have hfailed : HSEPollRes.errorMisuse.failed = true := rfl
  have hpos := List.length_pos_iff.2 hrest
  refine ⟨{ encode with encodeFailed := true }, ?_, ⟨(by cases ·), fun hfits => ?_⟩, (by cases ·),
    henc.touched⟩
  · rw [encodeFinishLoop, encodePoll_stuck hok henc hfull]
    simp only [hfailed, if_true]
  · rw [hdata, List.length_append] at hfits
    omega

/-- The polls at the end give the rest of the encoding, or find no more room. -/
theorem encodeFinishLoop_spec {data output rest : List UInt8} {encode : CompressEncode τ}
    (henc : Encoding dataOutSize output encode) (hgoes : encode.encodeFailed = false)
    (hfinishing : finishing encode.encoder rest) (hrest : rest ≠ [])
    (hdata : compress data = output ++ rest) {rounds : ℕ} (hrounds : 2 ≤ rounds) :
    ∃ encode', encodeFinishLoop heatshrink dataOutSize rounds encode = some encode' ∧
      Encoded compress dataOutSize data encode' := by
  obtain ⟨rounds, rfl⟩ := Nat.exists_eq_add_of_le hrounds
  have hfits := henc.fits
  rcases Nat.eq_or_lt_of_le hfits with hfull | hroom
  · rw [show 2 + rounds = rounds + 1 + 1 by omega]
    exact encodeFinishLoop_stuck hok henc hfull hrest hdata (rounds + 1)
  · obtain ⟨n, hn⟩ : ∃ n, n = outputEnd dataOutSize - (4 + output.length) := ⟨_, rfl⟩
    obtain ⟨⟨res, out, encoder⟩, hp⟩ : ∃ p, p = heatshrink.poll encode.encoder n := ⟨_, rfl⟩
    obtain ⟨hres, hout, hfinishing'⟩ := hok.poll_finishing hfinishing n (by omega)
    rw [← hp] at hres hout hfinishing'
    dsimp only at hres hout hfinishing'
    have hnofail : res.failed = false := by
      rcases hres with rfl | rfl <;> rfl
    obtain ⟨encode', hpoll, rfl, hsame, hadds⟩ := encodePoll_adds hsize henc hn hp.symm hnofail
      (by rw [hout]; exact List.length_take_le _ _)
    rw [hout] at hadds
    obtain ⟨hdone, hfinishing''⟩ := hok.finish_finishing hfinishing'
    have hadds' : Encoding dataOutSize (output ++ rest.take n)
        { encode' with encoder := (heatshrink.finish encode'.encoder).2 } := hadds.turn _ _
    rw [show 2 + rounds = rounds + 1 + 1 by omega, encodeFinishLoop, hpoll]
    simp only [hnofail, Bool.false_eq_true, if_false, hdone]
    by_cases hall : rest.drop n = []
    · have htake : rest.take n = rest := List.take_of_length_le (List.drop_eq_nil_iff.1 hall)
      rw [htake, ← hdata] at hadds'
      simp only [if_pos hall, ne_eq, not_true_eq_false, if_false]
      refine ⟨_, rfl, ⟨fun _ => hadds'.fits, fun _ => ?_⟩, fun _ => hadds', hadds'.touched⟩
      exact hsame.trans hgoes
    · have hmore : (HSEFinishRes.more ≠ .done) := by decide
      simp only [if_neg hall, if_pos hmore]
      refine encodeFinishLoop_stuck hok hadds' ?_ hall ?_ rounds
      · rw [List.drop_eq_nil_iff, not_le] at hall
        rw [List.length_append, List.length_take_of_le hall.le]
        omega
      · rw [List.append_assoc, List.take_append_drop]
        exact hdata

theorem encode_spec {dataIn : Memory} {data : List UInt8} (hne : data ≠ [])
    (hdata : dataIn.bytes 0 data.length = data) (encoder : τ) {dataOut : Memory}
    (htouched : dataOut.touched = 0) {rounds : ℕ} (hrounds : data.length + 2 ≤ rounds) :
    ∃ sunk encode encode', sunk ≤ data.length ∧
      encodeSinkLoop heatshrink dataIn data.length dataOutSize rounds rounds 0
        ⟨heatshrink.reset encoder, dataOut, COMPRESS_HEADER_SIZE, false⟩ = some (sunk, encode) ∧
      encodeFinish heatshrink dataOutSize rounds encode = some encode' ∧
      Encoded compress dataOutSize data encode' := by
  have hstart : Going going dataOutSize (data.take 0) []
      ⟨heatshrink.reset encoder, dataOut, COMPRESS_HEADER_SIZE, false⟩ := by
    refine ⟨⟨rfl, ?_, fun _ => rfl, fun _ => by rw [htouched]; exact Nat.zero_le _⟩,
      (hok.reset encoder).1, rfl⟩
    unfold outputEnd
    exact Nat.le_add_right _ _
  obtain ⟨sunk, output, encode, hsunk, hrun, hend⟩ := encodeSinkLoop_spec hok hsize
    (by omega : 2 ≤ rounds) hdata rounds (Nat.zero_le _) hstart (hok.reset encoder).2 (by omega)
  have hmore : HSEFinishRes.more.failed = false := rfl
  rcases hend with ⟨-, hgoing⟩ | ⟨hpos, hstuck⟩
  · obtain ⟨hfinish, rest, hrest, hfinishing⟩ := hok.finish hgoing.going hne
    obtain ⟨rest', hne', hrest'⟩ := hok.held_back hgoing.going [] (by simpa using hne)
    rw [List.append_nil, hrest] at hrest'
    rw [← List.append_cancel_left hrest'] at hne'
    obtain ⟨encode', hrun', hencoded⟩ := @encodeFinishLoop_spec _ _ _ _ _ _ _ hok hsize data output
      rest { encode with encoder := (heatshrink.finish encode.encoder).2 }
      (hgoing.encoding.turn _ _) hgoing.goes hfinishing hne' hrest rounds (by omega)
    refine ⟨sunk, encode, encode', hsunk, hrun, ?_, hencoded⟩
    simp only [encodeFinish, hfinish, hmore, Bool.false_eq_true, if_false]
    exact hrun'
  · have htaken : data.take sunk ≠ [] := by
      rw [ne_eq, List.take_eq_nil_iff, not_or]
      exact ⟨by omega, hne⟩
    obtain ⟨hfinish, -⟩ := hok.finish hstuck.going htaken
    obtain ⟨rest, hrest, hdata'⟩ := hok.held_back hstuck.going (data.drop sunk)
      (by rw [List.take_append_drop]; exact hne)
    rw [List.take_append_drop] at hdata'
    obtain ⟨rounds, rfl⟩ := Nat.exists_eq_succ_of_ne_zero (n := rounds) (by omega)
    obtain ⟨encode', hrun', hencoded⟩ := @encodeFinishLoop_stuck _ _ _ _ _ _ _ hok data output rest
      { encode with encoder := (heatshrink.finish encode.encoder).2 }
      (hstuck.encoding.turn _ _) hstuck.full hrest hdata' rounds
    refine ⟨sunk, encode, encode', hsunk, hrun, ?_, hencoded⟩
    simp only [encodeFinish, hfinish, hmore, Bool.false_eq_true, if_false]
    exact hrun'

end Run

end Encode

/-! ## Decoding -/

namespace MemoryStreamState

/-- After these bytes were written. -/
def put (state : MemoryStreamState) (data : List UInt8) : MemoryStreamState :=
  ⟨state.memory.write state.dataPtr data, state.dataPtr + data.length,
    state.dataSize - data.length⟩

theorem put_nil (state : MemoryStreamState) : state.put [] = state := by
  unfold put
  rw [Memory.write_nil]
  rfl

theorem put_put (state : MemoryStreamState) (as bs : List UInt8) :
    (state.put as).put bs = state.put (as ++ bs) := by
  unfold put
  dsimp only
  rw [Memory.write_write, List.length_append, Nat.add_assoc, Nat.sub_sub]

end MemoryStreamState

theorem memoryStreamWrite_fits {state : MemoryStreamState} {data : List UInt8}
    (h : data.length ≤ state.dataSize) :
    memoryStreamWrite state data = (data.length, state.put data) := by
  unfold memoryStreamWrite
  rw [if_neg (not_lt.2 h)]
  dsimp only
  rw [List.take_length]
  rfl

theorem memoryStreamWrite_over {state : MemoryStreamState} {data : List UInt8}
    (h : state.dataSize < data.length) : (memoryStreamWrite state data).1 ≠ data.length := by
  unfold memoryStreamWrite
  rw [if_pos h]
  exact h.ne

/-- What is left to read from a source. -/
def MemoryStreamState.content (state : MemoryStreamState) : List UInt8 :=
  state.memory.bytes state.dataPtr state.dataSize

theorem memoryStreamRead_eq (state : MemoryStreamState) (size : ℕ) :
    (memoryStreamRead state size).1 = state.content.take size ∧
      (memoryStreamRead state size).2.content = state.content.drop size ∧
      (memoryStreamRead state size).2.dataSize = state.dataSize - size ∧
      (memoryStreamRead state size).2.dataPtr + (memoryStreamRead state size).2.dataSize =
        state.dataPtr + state.dataSize := by
  unfold memoryStreamRead MemoryStreamState.content
  dsimp only
  rw [Memory.read]
  by_cases hshort : state.dataSize < size
  · simp only [if_pos hshort, Memory.touch_bytes, Nat.sub_self, Nat.add_zero]
    rw [List.take_of_length_le (by rw [Memory.length_bytes]; omega),
      List.drop_of_length_le (by rw [Memory.length_bytes]; omega)]
    exact ⟨rfl, rfl, by omega, trivial⟩
  · simp only [if_neg hshort, Memory.touch_bytes]
    rw [Memory.take_bytes (by omega), Memory.drop_bytes (by omega)]
    exact ⟨rfl, rfl, trivial, by omega⟩

theorem memoryStreamRead_touched {state : MemoryStreamState} {size bound : ℕ}
    (htouched : state.memory.touched ≤ bound) (hend : state.dataPtr + state.dataSize ≤ bound) :
    (memoryStreamRead state size).2.memory.touched ≤ bound := by
  unfold memoryStreamRead Memory.read
  dsimp only
  refine Memory.touch_le htouched ?_
  split_ifs <;> omega

section Decode

variable {heatshrink : HeatshrinkDecoder σ} {inputBufferSize workBufferSize : ℕ} {held : σ → ℕ}
  {yields : σ → List UInt8 → List UInt8}

/-- A decoder that has nothing more to give. -/
structure Dry (held : σ → ℕ) (yields : σ → List UInt8 → List UInt8) (s : σ) : Prop where
  held : held s = 0
  yields : yields s [] = []

/-- All that is given out fits and is written, or some of it does not fit and the code fails. -/
def Gives (held : σ → ℕ) (yields : σ → List UInt8 → List UInt8) (given : List UInt8)
    (after : σ → Prop) (output : MemoryStreamState) (r : Option (Bool × σ × MemoryStreamState)) :
    Prop :=
  (given.length ≤ output.dataSize →
    ∃ s', r = some (true, s', output.put given) ∧ Dry held yields s' ∧ after s') ∧
  (output.dataSize < given.length → ∃ s' output', r = some (false, s', output'))

section Loops

variable (hok : heatshrink.Ok inputBufferSize held yields)
include hok

theorem yields_starts (s : σ) (rest : List UInt8) : yields s [] <+: yields s rest := by
  obtain ⟨n, hn⟩ : ∃ n, n = (yields s rest).length + 1 := ⟨_, rfl⟩
  have hyields := hok.poll_yields s n
  rcases hok.poll_res s n with hempty | hmore
  · rw [hyields [], hyields rest, (hok.poll_empty s n hempty).2, List.append_nil]
    exact List.prefix_append _ _
  · have hlength := congrArg List.length (hyields rest)
    rw [List.length_append, hok.poll_more s n hmore] at hlength
    omega

theorem compressDecoderPoll_spec (hwork : 0 < workBufferSize) : ∀ (rounds : ℕ) {s : σ}
    {output : MemoryStreamState}, (yields s []).length < rounds →
    Gives held yields (yields s [])
      (fun s' => ∀ rest, yields s rest = yields s [] ++ yields s' rest) output
      (compressDecoderPoll heatshrink workBufferSize rounds s output)
  | 0, _, _, hrounds => absurd hrounds (Nat.not_lt_zero _)
  | rounds + 1, s, output, hrounds => by
    obtain ⟨p, hp⟩ : ∃ p, p = heatshrink.poll s workBufferSize := ⟨_, rfl⟩
    have hyields := hok.poll_yields s workBufferSize
    have hmore := hok.poll_more s workBufferSize
    have hempty := hok.poll_empty s workBufferSize
    have hres := hok.poll_res s workBufferSize
    have hfailed := not_poll_failed hok s workBufferSize
    rw [← hp] at hyields hmore hempty hres hfailed
    have hall := hyields []
    have hlength : (yields s []).length = p.2.1.length + (yields p.2.2 []).length := by
      rw [hall, List.length_append]
    rw [compressDecoderPoll, ← hp]
    simp only [hfailed, Bool.false_eq_true, if_false]
    rcases Nat.lt_or_ge output.dataSize p.2.1.length with hover | hfits
    · simp only [if_pos (memoryStreamWrite_over hover)]
      exact ⟨fun h => by omega, fun _ => ⟨_, _, rfl⟩⟩
    · simp only [memoryStreamWrite_fits hfits, ne_eq, not_true_eq_false, if_false]
      have hput : (output.put p.2.1).dataSize = output.dataSize - p.2.1.length := rfl
      rcases hres with hres | hres
      · obtain ⟨hheld, hdry⟩ := hempty hres
        rw [if_neg (by rw [hres]; decide)]
        rw [hdry, List.append_nil] at hall
        rw [hall]
        refine ⟨fun _ => ⟨_, rfl, ⟨hheld, hdry⟩, fun rest => hyields rest⟩, fun h => by omega⟩
      · rw [if_pos hres]
        have hpos := hmore hres
        obtain ⟨hgiven, hover⟩ := @compressDecoderPoll_spec hwork rounds p.2.2 (output.put p.2.1)
          (by omega)
        refine ⟨fun h => ?_, fun h => hover (by omega)⟩
        obtain ⟨s', hrun, hdry, hafter⟩ := hgiven (by omega)
        rw [MemoryStreamState.put_put, ← hall] at hrun
        refine ⟨s', hrun, hdry, fun rest => ?_⟩
        rw [hyields rest, hafter rest, hall, List.append_assoc]

theorem decodeSinkLoop_spec (hinput : 0 < inputBufferSize) (hwork : 0 < workBufferSize)
    {polls : ℕ} : ∀ (rounds : ℕ) {s : σ} {data : List UInt8} {output : MemoryStreamState},
    Dry held yields s → data.length < rounds → (yields s data).length < polls →
    Gives held yields (yields s data)
      (fun s' => ∀ rest, yields s (data ++ rest) = yields s data ++ yields s' rest) output
      (decodeSinkLoop heatshrink workBufferSize polls rounds s data output)
  | 0, _, _, _, _, hrounds, _ => absurd hrounds (Nat.not_lt_zero _)
  | rounds + 1, s, data, output, hdry, hrounds, hpolls => by
    rw [decodeSinkLoop]
    by_cases hnil : data = []
    · rw [if_pos hnil, hnil, hdry.yields]
      refine ⟨fun _ => ⟨s, by rw [MemoryStreamState.put_nil], hdry, fun rest => rfl⟩,
        fun h => absurd h (Nat.not_lt_zero _)⟩
    · rw [if_neg hnil]
      obtain ⟨r, hr⟩ : ∃ r, r = heatshrink.sink s data := ⟨_, rfl⟩
      obtain ⟨hres, htaken⟩ := hok.sink_ok s data hnil (by rw [hdry.held]; exact hinput)
      have hyields := hok.sink_yields s data
      rw [← hr, hdry.held] at htaken
      rw [← hr] at hres hyields
      have hpos : 0 < r.2.1 := by
        have := List.length_pos_iff.2 hnil
        omega
      have hfailed : r.1.failed = false := by rw [hres]; rfl
      have hdata : yields r.2.2 (data.drop r.2.1) = yields s data := by
        rw [hyields, List.take_append_drop]
      have hfirst := (yields_starts hok r.2.2 (data.drop r.2.1)).length_le
      rw [hdata] at hfirst
      obtain ⟨hgives, hover⟩ := @compressDecoderPoll_spec _ _ _ _ _ _ hok hwork polls r.2.2 output
        (by omega)
      simp only [← hr, hfailed, Bool.false_eq_true, if_false]
      rcases Nat.lt_or_ge output.dataSize (yields r.2.2 []).length with hshort | hroom
      · obtain ⟨s', output', hrun⟩ := hover hshort
        rw [hrun]
        exact ⟨fun h => by omega, fun _ => ⟨s', output', rfl⟩⟩
      · obtain ⟨s₁, hrun, hdry₁, hafter₁⟩ := hgives hroom
        have hsplit : yields s data = yields r.2.2 [] ++ yields s₁ (data.drop r.2.1) := by
          rw [← hdata, hafter₁]
        have hlength := congrArg List.length hsplit
        rw [List.length_append] at hlength
        have hless : (data.drop r.2.1).length < rounds := by
          rw [List.length_drop]
          omega
        obtain ⟨hgives', hover'⟩ := @decodeSinkLoop_spec hinput hwork polls rounds s₁
          (data.drop r.2.1) (output.put (yields r.2.2 [])) hdry₁ hless (by omega)
        have hput : (output.put (yields r.2.2 [])).dataSize =
            output.dataSize - (yields r.2.2 []).length := rfl
        rw [hrun, Option.bind_some]
        refine ⟨fun h => ?_, fun h => hover' (by omega)⟩
        obtain ⟨s', hrun', hdry', hafter'⟩ := hgives' (by omega)
        rw [MemoryStreamState.put_put, ← hsplit] at hrun'
        refine ⟨s', hrun', hdry', fun rest => ?_⟩
        have hall : yields s (data ++ rest) = yields r.2.2 (data.drop r.2.1 ++ rest) := by
          rw [hyields, ← List.append_assoc, List.take_append_drop]
        rw [hall, hafter₁, hafter', hsplit, List.append_assoc]

theorem yields_append_starts (hinput : 0 < inputBufferSize) {s : σ} (hdry : Dry held yields s)
    (a b : List UInt8) : yields s a <+: yields s (a ++ b) := by
  obtain ⟨hgives, -⟩ := @decodeSinkLoop_spec _ _ _ 1 _ _ hok hinput Nat.one_pos
    ((yields s a).length + 1) (a.length + 1) s a ⟨Memory.fresh fun _ => 0, 0, (yields s a).length⟩
    hdry (Nat.lt_succ_self _) (Nat.lt_succ_self _)
  obtain ⟨s', -, -, hafter⟩ := hgives le_rfl
  rw [hafter b]
  exact List.prefix_append _ _

theorem decodeReadLoop_spec (hinput : 0 < inputBufferSize) (hwork : 0 < workBufferSize)
    {polls bound : ℕ} (hpolls : workBufferSize < polls) : ∀ (rounds : ℕ) {s : σ}
    {input output : MemoryStreamState}, Dry held yields s → input.dataSize < rounds →
    (yields s input.content).length < polls → input.memory.touched ≤ bound →
    input.dataPtr + input.dataSize ≤ bound →
    ((yields s input.content).length ≤ output.dataSize → ∃ s' input',
      decodeReadLoop heatshrink workBufferSize polls rounds s input output =
        some ((true, s', output.put (yields s input.content)), input') ∧
      Dry held yields s' ∧ input'.memory.touched ≤ bound) ∧
    (output.dataSize < (yields s input.content).length → ∃ s' input' output',
      decodeReadLoop heatshrink workBufferSize polls rounds s input output =
        some ((false, s', output'), input'))
  | 0, _, _, _, _, hrounds, _, _, _ => absurd hrounds (Nat.not_lt_zero _)
  | rounds + 1, s, input, output, hdry, hrounds, hyielded, htouched, hbound => by
    obtain ⟨r, hr⟩ : ∃ r, r = memoryStreamRead input workBufferSize := ⟨_, rfl⟩
    obtain ⟨hdata, hcontent, hleft, hend⟩ := memoryStreamRead_eq input workBufferSize
    have htouched' := @memoryStreamRead_touched input workBufferSize bound htouched hbound
    rw [← hr] at hdata hcontent hleft hend htouched'
    have hwhole : r.1 ++ r.2.content = input.content := by
      rw [hdata, hcontent, List.take_append_drop]
    have hlength : r.1.length < polls := by
      rw [hdata]
      exact (List.length_take_le _ _).trans_lt hpolls
    have hfirst := (yields_append_starts hok hinput hdry r.1 r.2.content).length_le
    rw [hwhole] at hfirst
    obtain ⟨hgives, hover⟩ := @decodeSinkLoop_spec _ _ _ _ _ _ hok hinput hwork polls polls s r.1
      output hdry hlength (by omega)
    rw [decodeReadLoop, ← hr]
    rcases Nat.lt_or_ge output.dataSize (yields s r.1).length with hshort | hroom
    · obtain ⟨s', output', hrun⟩ := hover hshort
      simp only [hrun, Option.bind_some, Bool.false_eq_true, false_and, if_false]
      exact ⟨fun h => by omega, fun _ => ⟨s', r.2, output', rfl⟩⟩
    · obtain ⟨s₁, hrun, hdry₁, hafter₁⟩ := hgives hroom
      have hsplit : yields s input.content = yields s r.1 ++ yields s₁ r.2.content := by
        rw [← hwhole, hafter₁]
      simp only [hrun, Option.bind_some, true_and]
      by_cases hnil : r.1 = []
      · have hcontent' : input.content = [] := by
          have hsize := congrArg List.length hdata
          rw [hnil, List.length_nil, List.length_take] at hsize
          refine List.length_eq_zero_iff.1 ?_
          omega
        rw [if_neg (not_not.2 hnil), hnil, hcontent']
        refine ⟨fun _ => ⟨s₁, r.2, rfl, hdry₁, htouched'⟩, fun h => ?_⟩
        rw [hdry.yields] at h
        exact absurd h (Nat.not_lt_zero _)
      · rw [if_pos hnil]
        have hless : r.2.dataSize < rounds := by
          have hpos := List.length_pos_iff.2 hnil
          have hsize := congrArg List.length hwhole
          rw [List.length_append, MemoryStreamState.content, MemoryStreamState.content,
            Memory.length_bytes, Memory.length_bytes] at hsize
          omega
        have hcount := congrArg List.length hsplit
        rw [List.length_append] at hcount
        obtain ⟨hgives', hover'⟩ := @decodeReadLoop_spec hinput hwork polls bound hpolls rounds s₁
          r.2 (output.put (yields s r.1)) hdry₁ hless (by omega) htouched' (by omega)
        have hput : (output.put (yields s r.1)).dataSize =
            output.dataSize - (yields s r.1).length := rfl
        refine ⟨fun h => ?_, fun h => hover' (by omega)⟩
        obtain ⟨s', input', hrun', hdry', hbound'⟩ := hgives' (by omega)
        rw [MemoryStreamState.put_put, ← hsplit] at hrun'
        exact ⟨s', input', hrun', hdry', hbound'⟩

end Loops

theorem compressDecode_compressed {expand : List UInt8 → List UInt8}
    (hok : heatshrink.Ok inputBufferSize held yields)
    (hexpands : heatshrink.Expands held yields expand) (hinput : 0 < inputBufferSize) (decoder : σ)
    {dataIn dataOut : Memory} (hin : dataIn.touched = 0) (hout : dataOut.touched = 0)
    (dataInSize dataOutSize : ℕ) {bytes : List UInt8} (hcompressed : dataIn.byte 0 ≠ 0)
    (hsize : (dataIn.byte 2).toNat + 256 * (dataIn.byte 3).toNat = bytes.length)
    (hbytes : dataIn.bytes 4 bytes.length = bytes) :
    ∃ enough, ∀ rounds ≥ enough,
      ((expand bytes).length ≤ dataOutSize → ∃ r,
        compressDecode heatshrink rounds decoder dataIn dataInSize dataOut dataOutSize = some r ∧
          r.result = true ∧ r.dataResSize = (expand bytes).length ∧
          r.dataOut.bytes 0 (expand bytes).length = expand bytes ∧
          r.dataIn.touched ≤ 4 + bytes.length ∧ r.dataOut.touched ≤ dataOutSize) ∧
      (dataOutSize < (expand bytes).length → ∃ r,
        compressDecode heatshrink rounds decoder dataIn dataInSize dataOut dataOutSize = some r ∧
          r.result = false) := by
  refine ⟨bytes.length + (expand bytes).length + 257, fun rounds hrounds => ?_⟩
  obtain ⟨input, hsource⟩ : ∃ input, input = MemoryStreamState.mk ((dataIn.touch 0 1).touch 2 2) 4
    bytes.length := ⟨_, rfl⟩
  obtain ⟨output, houtput⟩ : ∃ output, output = MemoryStreamState.mk dataOut 0 dataOutSize :=
    ⟨_, rfl⟩
  have hcontent : input.content = bytes := by
    rw [hsource]
    exact hbytes
  have hdry : Dry held yields (heatshrink.reset decoder) :=
    ⟨hexpands.reset_held decoder, by rw [hexpands.reset_yields, hexpands.expand_nil]⟩
  have htouched : input.memory.touched ≤ 4 + bytes.length := by
    rw [hsource]
    exact Memory.touch_le (Memory.touch_le (by omega) (by omega)) (by omega)
  have hread := @decodeReadLoop_spec _ _ _ COMPRESS_ICON_ENCODED_BUFF_SIZE _ _ hok hinput
    (by decide) rounds (4 + bytes.length) (by simp only [COMPRESS_ICON_ENCODED_BUFF_SIZE]; omega)
    rounds (heatshrink.reset decoder) input output hdry (by rw [hsource]; dsimp only; omega)
    (by rw [hcontent, hexpands.reset_yields]; omega) htouched (by rw [hsource])
  rw [hcontent, hexpands.reset_yields] at hread
  obtain ⟨hgives, hover⟩ := hread
  have hrun : compressDecode heatshrink rounds decoder dataIn dataInSize dataOut dataOutSize =
      (compressDecodeStreamInternal heatshrink COMPRESS_ICON_ENCODED_BUFF_SIZE rounds
        (heatshrink.reset decoder) input output).map fun r =>
          ⟨r.1, r.2.1.memory, r.2.2.memory, if r.1 then dataOutSize - r.2.2.dataSize else 0⟩ := by
    rw [compressDecode, hsource, houtput]
    simp only [Memory.touch_byte, if_pos hcompressed, hsize]
    rfl
  have hroom : output.dataSize = dataOutSize := by rw [houtput]
  rw [hroom] at hgives hover
  rw [hrun, compressDecodeStreamInternal]
  refine ⟨fun hfits => ?_, fun hshort => ?_⟩
  · obtain ⟨s', input', hread, hdry', hbound⟩ := hgives hfits
    obtain ⟨rounds, rfl⟩ := Nat.exists_eq_succ_of_ne_zero (n := rounds) (by omega)
    have hfinish := hexpands.finish s' hdry'.held hdry'.yields
    rw [hread]
    simp only [Option.bind_some, if_true, decodeFinishLoop, hfinish, Option.map_some]
    refine ⟨_, rfl, rfl, ?_, ?_, hbound, ?_⟩
    · have hput : (output.put (expand bytes)).dataSize =
          dataOutSize - (expand bytes).length := by rw [houtput]; rfl
      simp only [hput]
      omega
    · rw [houtput]
      exact Memory.bytes_write
    · rw [houtput]
      exact Memory.write_touched_le (by dsimp only; omega) (by rw [Nat.zero_add]; exact hfits)
  · obtain ⟨s', input', output', hread⟩ := hover hshort
    rw [hread]
    exact ⟨_, rfl, rfl⟩

theorem compressDecode_stored (heatshrink : HeatshrinkDecoder σ) (rounds : ℕ) (decoder : σ)
    {dataIn : Memory} {dataInSize : ℕ} (dataOut : Memory) {dataOutSize : ℕ}
    (hstored : dataIn.byte 0 = 0) (hpos : 0 < dataInSize) (hsize : dataInSize < 2 ^ 32)
    (hfits : dataInSize ≤ dataOutSize + 1) :
    ∃ r, compressDecode heatshrink rounds decoder dataIn dataInSize dataOut dataOutSize = some r ∧
      dataInSize < r.dataIn.touched := by
  have hroom : sizeT ((dataInSize : ℤ) - 1) ≤ dataOutSize := by
    unfold sizeT
    omega
  refine ⟨_, by
    rw [compressDecode]
    simp only [Memory.touch_byte, hstored, ne_eq, not_true_eq_false, if_false, if_pos hroom]
    rfl, ?_⟩
  simp only [Memory.read, Memory.touch, if_neg hpos.ne']
  omega

end Decode

/-! ## There and back -/

/-- The data comes back and neither call accessed anything outside its buffers. -/
def RoundTrips (heatshrink : HeatshrinkDecoder σ) (decoder : σ) (data : List UInt8)
    (dataOutSize : ℕ) (encoded : CompressResult) (decodeOut : ℕ → UInt8) (decodeSize : ℕ) : Prop :=
  encoded.dataIn.touched ≤ data.length ∧ encoded.dataOut.touched ≤ dataOutSize ∧
    ∃ enough, ∀ rounds ≥ enough, ∃ decoded,
      compressDecode heatshrink rounds decoder (.fresh encoded.dataOut.byte) encoded.dataResSize
          (.fresh decodeOut) decodeSize = some decoded ∧
        decoded.result = true ∧ decoded.dataResSize = data.length ∧
        decoded.dataOut.bytes 0 data.length = data ∧
        decoded.dataIn.touched ≤ encoded.dataResSize ∧ decoded.dataOut.touched ≤ decodeSize

/-- A codec that gives back what it was given. -/
structure HeatshrinkOk (encoder : HeatshrinkEncoder τ) (decoder : HeatshrinkDecoder σ)
    (inputBufferSize : ℕ) (compress expand : List UInt8 → List UInt8) : Prop where
  encodes : ∃ going hungry finishing, encoder.Ok compress going hungry finishing
  decodes : ∃ held yields, decoder.Ok inputBufferSize held yields ∧
    decoder.Expands held yields expand
  inverse : ∀ data, expand (compress data) = data
  buffer : 0 < inputBufferSize

section RoundTrip

variable {encoder : HeatshrinkEncoder τ} {decoder : HeatshrinkDecoder σ} {inputBufferSize : ℕ}
  {compress expand : List UInt8 → List UInt8}

theorem not_roundTrips_stored {data : List UInt8} {dataOutSize decodeSize : ℕ}
    {encoded : CompressResult} {decodeOut : ℕ → UInt8} (hstored : encoded.dataOut.byte 0 = 0)
    (hres : encoded.dataResSize = data.length + 1) (hsize : data.length + 1 < 2 ^ 32)
    (hdecode : data.length ≤ decodeSize) (s : σ) :
    ¬RoundTrips decoder s data dataOutSize encoded decodeOut decodeSize := by
  rintro ⟨-, -, enough, hall⟩
  obtain ⟨decoded, hrun, -, -, -, hin, -⟩ := hall enough le_rfl
  obtain ⟨r, hrun', hover⟩ := @compressDecode_stored _ decoder enough s
    (.fresh encoded.dataOut.byte) encoded.dataResSize (.fresh decodeOut) decodeSize hstored
    (by omega) (by omega) (by omega)
  rw [hrun'] at hrun
  cases hrun
  omega

theorem roundTrips_compressed (hok : HeatshrinkOk encoder decoder inputBufferSize compress expand)
    {data bytes : List UInt8} {dataOutSize decodeSize : ℕ} {encoded : CompressResult}
    {decodeOut : ℕ → UInt8} (hin : encoded.dataIn.touched ≤ data.length)
    (hout : encoded.dataOut.touched ≤ dataOutSize) (hcompressed : encoded.dataOut.byte 0 ≠ 0)
    (hsize : (encoded.dataOut.byte 2).toNat + 256 * (encoded.dataOut.byte 3).toNat = bytes.length)
    (hbytes : encoded.dataOut.bytes 4 bytes.length = bytes)
    (hres : 4 + bytes.length ≤ encoded.dataResSize) (hdecode : data.length ≤ decodeSize) (s : σ) :
    RoundTrips decoder s data dataOutSize encoded decodeOut decodeSize ↔ expand bytes = data := by
  obtain ⟨held, yields, hdecodes, hexpands⟩ := hok.decodes
  obtain ⟨enough, hall⟩ := @compressDecode_compressed _ _ _ _ _ _ hdecodes hexpands hok.buffer s
    (.fresh encoded.dataOut.byte) (.fresh decodeOut) rfl rfl encoded.dataResSize decodeSize bytes
    hcompressed hsize hbytes
  constructor
  · rintro ⟨-, -, enough', hall'⟩
    obtain ⟨hgives, hover⟩ := hall (max enough enough') (le_max_left _ _)
    obtain ⟨decoded, hrun, hresult, hcount, hdata, -⟩ :=
      hall' (max enough enough') (le_max_right _ _)
    rcases Nat.lt_or_ge decodeSize (expand bytes).length with hshort | hfits
    · obtain ⟨r, hrun', hfalse⟩ := hover hshort
      rw [hrun'] at hrun
      cases hrun
      rw [hfalse] at hresult
      cases hresult
    · obtain ⟨r, hrun', -, hcount', hdata', -⟩ := hgives hfits
      rw [hrun'] at hrun
      cases hrun
      rw [← hcount', hcount, hdata] at hdata'
      exact hdata'.symm
  · intro hexpand
    refine ⟨hin, hout, enough, fun rounds hrounds => ?_⟩
    obtain ⟨r, hrun, hresult, hcount, hdata, hin', hout'⟩ :=
      (hall rounds hrounds).1 (by rw [hexpand]; exact hdecode)
    rw [hexpand] at hcount hdata
    exact ⟨r, hrun, hresult, hcount, hdata, hin'.trans hres, hout'⟩

theorem header_byte {memory : Memory} {size : ℕ} (hsize : size < 2 ^ 16) :
    ((memory.write 0 (compressHeader size)).byte 0 ≠ 0) ∧
      ((memory.write 0 (compressHeader size)).byte 2).toNat +
        256 * ((memory.write 0 (compressHeader size)).byte 3).toNat = size := by
  constructor
  · change (1 : UInt8) ≠ 0
    decide
  · change (UInt8.ofNat size).toNat + 256 * (UInt8.ofNat (size / 256)).toNat = size
    rw [UInt8.toNat_ofNat', UInt8.toNat_ofNat']
    omega

theorem roundTrips_compressedForm
    (hok : HeatshrinkOk encoder decoder inputBufferSize compress expand) {data : List UInt8}
    (hsize : data.length < 2 ^ 32) {dataIn : Memory} (hread : dataIn.touched ≤ data.length)
    {dataOutSize : ℕ} (hout : dataOutSize < 2 ^ 32) {encode : CompressEncode τ}
    (hencoding : Encoding dataOutSize (compress data) encode)
    (hpays : encode.resBuffSize < sizeT (data.length + 1)) (decodeOut : ℕ → UInt8)
    {decodeSize : ℕ} (hdecode : data.length ≤ decodeSize) (s : σ) :
    RoundTrips decoder s data dataOutSize
        ⟨true, dataIn, encode.dataOut.write 0 (compressHeader
          (sizeT ((encode.resBuffSize : ℤ) - COMPRESS_HEADER_SIZE) % 2 ^ 16)), encode.resBuffSize⟩
        decodeOut decodeSize ↔
      4 + (compress data).length ≤ dataOutSize ∧ 4 + (compress data).length ≤ data.length ∧
        ((compress data).length < 2 ^ 16 ∨
          expand ((compress data).take ((compress data).length % 2 ^ 16)) = data) := by
  have hinverse := hok.inverse data
  obtain ⟨c, hc⟩ : ∃ c, c = compress data := ⟨_, rfl⟩
  rw [← hc] at hencoding hinverse ⊢
  have hheaderLength : ∀ size, (compressHeader size).length = 4 := fun _ => rfl
  by_cases hheader : 4 ≤ dataOutSize
  · have hfits := hencoding.fits
    rw [outputEnd_eq hheader hout] at hfits
    have hres : encode.resBuffSize = 4 + c.length := by
      rw [hencoding.size, sizeT_natCast (by omega)]
    have hcounted : sizeT ((encode.resBuffSize : ℤ) - COMPRESS_HEADER_SIZE) % 2 ^ 16 =
        c.length % 2 ^ 16 := by
      rw [hres]
      unfold sizeT COMPRESS_HEADER_SIZE
      omega
    rw [hres] at hpays
    have hpays' : 4 + c.length ≤ data.length := by
      unfold sizeT at hpays
      omega
    obtain ⟨bytes, hbytes⟩ : ∃ bytes, bytes = c.take (c.length % 2 ^ 16) := ⟨_, rfl⟩
    have hbytesLength : bytes.length = c.length % 2 ^ 16 := by
      rw [hbytes, List.length_take_of_le (Nat.mod_le _ _)]
    obtain ⟨hbyte, hcount⟩ := @header_byte encode.dataOut (c.length % 2 ^ 16) (by omega)
    have hbehind : (encode.dataOut.write 0 (compressHeader (c.length % 2 ^ 16))).bytes 4
        bytes.length = bytes := by
      rw [Memory.bytes_write_of_disjoint (.inr (by rw [hheaderLength])), hbytesLength, hbytes]
      have htake := @Memory.take_bytes encode.dataOut 4 c.length _ (Nat.mod_le c.length (2 ^ 16))
      rw [hencoding.bytes hheader] at htake
      exact htake.symm
    rw [hcounted, ← hbytes]
    refine (@roundTrips_compressed _ _ _ _ _ _ _ hok data bytes dataOutSize decodeSize _ decodeOut
      hread ?_ hbyte (hcount.trans hbytesLength.symm) hbehind ?_ hdecode s).trans ?_
    · exact Memory.write_touched_le (hencoding.touched hheader) (by rw [hheaderLength]; omega)
    · have hle := Nat.mod_le c.length (2 ^ 16)
      dsimp only
      omega
    · refine ⟨fun h => ⟨hfits, hpays', .inr h⟩, fun ⟨_, _, h⟩ => h.elim (fun hshort => ?_) id⟩
      rw [hbytes, Nat.mod_eq_of_lt hshort, List.take_length]
      exact hinverse
  · -- The header alone is longer than the output.
    refine iff_of_false ?_ fun h => by omega
    rintro ⟨-, hwritten, -⟩
    have htouched := @Memory.write_touched_ge encode.dataOut 0
      (compressHeader (sizeT ((encode.resBuffSize : ℤ) - COMPRESS_HEADER_SIZE) % 2 ^ 16))
      (by simp [compressHeader])
    rw [hheaderLength] at htouched
    dsimp only at hwritten
    omega

theorem encode_pays {data : List UInt8} (hsize : data.length + 1 < 2 ^ 32) {dataOutSize : ℕ}
    (hout : dataOutSize < 2 ^ 32) {encode : CompressEncode τ}
    (hencoded : Encoded compress dataOutSize data encode)
    (hfits : 4 + (compress data).length ≤ dataOutSize)
    (hpays : 4 + (compress data).length ≤ data.length) :
    (!encode.encodeFailed && decide (encode.resBuffSize < sizeT (data.length + 1))) = true := by
  have hgoes := hencoded.fits.2 (by rw [outputEnd_eq (by omega) hout]; exact hfits)
  have hres := (hencoded.encoding hgoes).size
  rw [sizeT_natCast (by omega)] at hres
  rw [hgoes, hres, Bool.not_false, Bool.true_and, decide_eq_true_eq]
  unfold sizeT
  omega

/-- When compressing works and when the data comes back from it. -/
theorem compress_roundTrips_iff
    (hok : HeatshrinkOk encoder decoder inputBufferSize compress expand) (data : List UInt8)
    (hne : data ≠ []) (hsize : data.length < 2 ^ 32) (dataIn : ℕ → UInt8)
    (hdata : (Memory.fresh dataIn).bytes 0 data.length = data) (dataOut : ℕ → UInt8)
    (dataOutSize : ℕ) (hout : dataOutSize < 2 ^ 32) (decodeOut : ℕ → UInt8) (decodeSize : ℕ)
    (hdecode : data.length ≤ decodeSize) (e : τ) (s : σ) :
    ∃ enough, ∀ rounds ≥ enough, ∃ encoded,
      compressEncode encoder (.fresh dataIn) data.length dataOutSize rounds e (.fresh dataOut) =
        some encoded ∧
      (encoded.result = true →
        (RoundTrips decoder s data dataOutSize encoded decodeOut decodeSize ↔
          4 + (compress data).length ≤ dataOutSize ∧ 4 + (compress data).length ≤ data.length ∧
            ((compress data).length < 2 ^ 16 ∨
              expand ((compress data).take ((compress data).length % 2 ^ 16)) = data))) := by
  obtain ⟨going, hungry, finishing, hencodes⟩ := hok.encodes
  refine ⟨data.length + 2, fun rounds hrounds => ?_⟩
  obtain ⟨sunk, started, encode, hsunk, hrun, hfinish, hencoded⟩ :=
    @encode_spec _ _ _ _ _ _ _ hencodes hout (.fresh dataIn) data hne hdata e (.fresh dataOut) rfl
      rounds hrounds
  have hlength : data.length ≠ 0 := fun h => hne (List.length_eq_zero_iff.1 h)
  have hread : ((Memory.fresh dataIn).touch 0 sunk).touched ≤ data.length :=
    Memory.touch_le (Nat.zero_le _) (by omega)
  refine ⟨encodeOutput data.length dataOutSize ((Memory.fresh dataIn).touch 0 sunk) encode, ?_, ?_⟩
  · rw [compressEncode, if_neg hlength, hrun, Option.bind_some, hfinish]
    rfl
  unfold encodeOutput
  by_cases hcompressed : (!encode.encodeFailed &&
      decide (encode.resBuffSize < sizeT (data.length + 1))) = true
  · rw [if_pos hcompressed]
    intro _
    rw [Bool.and_eq_true, Bool.not_eq_true', decide_eq_true_eq] at hcompressed
    obtain ⟨hgoes, hpays⟩ := hcompressed
    exact roundTrips_compressedForm hok hsize hread hout (hencoded.encoding hgoes) hpays decodeOut
      hdecode s
  · rw [if_neg hcompressed]
    by_cases hstored : data.length < dataOutSize
    · rw [if_pos hstored]
      intro _
      refine iff_of_false ?_ ?_
      · refine not_roundTrips_stored rfl ?_ (by omega) hdecode s
        unfold sizeT
        dsimp only
        omega
      · rintro ⟨hfits, hpays, -⟩
        exact hcompressed (encode_pays (by omega) hout hencoded hfits hpays)
    · rw [if_neg hstored]
      intro h
      cases h

end RoundTrip

/-! A codec that gets these letters right, and all other bytes behind a zero. -/

def compressBytes (data : List UInt8) : List UInt8 :=
  if data = List.replicate 17 0x61 then [0xB0, 0x80, 0x3C]
  else if data = [0x61] then [0xB0, 0x80] else 0 :: data

def expandBytes : List UInt8 → List UInt8
  | 0 :: data => data
  | bytes => expandLetters bytes

theorem expandBytes_mono (a b : List UInt8) : expandBytes a <+: expandBytes (a ++ b) := by
  rcases a with - | ⟨head, tail⟩
  · exact List.nil_prefix
  · by_cases hzero : head = 0
    · subst hzero
      exact List.prefix_append tail b
    · have hletters : ∀ rest, expandBytes (head :: rest) = expandLetters (head :: rest) := by
        intro rest
        unfold expandBytes
        split
        next data heq =>
          injection heq with hhead
          exact absurd hhead hzero
        next => rfl
      rw [List.cons_append, hletters, hletters]
      exact expandLetters_mono (head :: tail) b

theorem heatshrinkOk_bytes : HeatshrinkOk (keepingEncoder compressBytes)
    (keepingDecoder expandBytes 256) 256 compressBytes expandBytes where
  encodes := by
    refine ⟨_, _, _, keepingEncoder_ok fun data _ => ?_⟩
    unfold compressBytes
    split_ifs <;> exact List.cons_ne_nil _ _
  decodes := ⟨_, _, keepingDecoder_ok 256 expandBytes_mono, keepingDecoder_expands 256 rfl⟩
  inverse data := by
    unfold compressBytes
    split_ifs with hrun hletter
    · rw [hrun]
      rfl
    · rw [hletter]
      rfl
    · rfl
  buffer := by decide

/-- A run of letters fits just into as many bytes. -/
theorem compress_roundTrips_iff_letters :
    ∃ enough, ∀ rounds ≥ enough, ∃ encoded,
      compressEncode (keepingEncoder compressBytes) (.fresh fun _ => 0x61) 17 17 rounds ⟨[], none⟩
        (.fresh fun _ => 0) = some encoded ∧
      (encoded.result = true →
        (RoundTrips (keepingDecoder expandBytes 256) ⟨[], 0, 0⟩ (List.replicate 17 0x61) 17 encoded
            (fun _ => 0) 17 ↔
          4 + (compressBytes (List.replicate 17 0x61)).length ≤ 17 ∧
            4 + (compressBytes (List.replicate 17 0x61)).length ≤ 17 ∧
            ((compressBytes (List.replicate 17 0x61)).length < 2 ^ 16 ∨
              expandBytes ((compressBytes (List.replicate 17 0x61)).take
                ((compressBytes (List.replicate 17 0x61)).length % 2 ^ 16)) =
                  List.replicate 17 0x61))) :=
  compress_roundTrips_iff heatshrinkOk_bytes (List.replicate 17 0x61) (by simp) (by simp)
    (fun _ => 0x61) (by decide) (fun _ => 0) 17 (by decide) (fun _ => 0) 17 (by simp) ⟨[], none⟩
    ⟨[], 0, 0⟩

/-- One letter is stored, and does not come back from a buffer of one byte. -/
theorem not_compress_roundTrips :
    HeatshrinkOk (keepingEncoder compressBytes) (keepingDecoder expandBytes 256) 256 compressBytes
        expandBytes ∧
      ∃ encoded, compressEncode (keepingEncoder compressBytes) (.fresh fun _ => 0x61) 1 8 8
          ⟨[], none⟩ (.fresh fun _ => 0) = some encoded ∧ encoded.result = true ∧
        ¬RoundTrips (keepingDecoder expandBytes 256) ⟨[], 0, 0⟩ [0x61] 8 encoded (fun _ => 0) 1 :=
  ⟨heatshrinkOk_bytes, _, rfl, rfl,
    not_roundTrips_stored rfl rfl (by decide) (by decide) ⟨[], 0, 0⟩⟩

end KiisuFirmware
