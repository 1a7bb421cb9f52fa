import KiisuFirmware.Heatshrink

/-!
# Codecs that keep all they were given

A function that only ever adds to what it has decoded from the bytes so far is that of a decoder
(`keepingDecoder_ok`): it keeps the bytes and how much of what they decode to was given out. Any
encoding of some bytes by some bytes is that of an encoder (`keepingEncoder_ok`) that gives nothing
out before its input is complete.
-/

namespace KiisuFirmware

structure KeepingDecoder where
  sunk : List UInt8
  given : ℕ
  held : ℕ
  deriving DecidableEq

variable (expand : List UInt8 → List UInt8) (inputBufferSize : ℕ)

def keepingDecoder : HeatshrinkDecoder KeepingDecoder where
  reset _ := ⟨[], 0, 0⟩
  sink s data :=
    if s.held < inputBufferSize then
      let taken := min (inputBufferSize - s.held) data.length
      (.ok, taken, ⟨s.sunk ++ data.take taken, s.given, s.held + taken⟩)
    else (.full, 0, s)
  poll s n :=
    let output := ((expand s.sunk).drop s.given).take n
    if output.length = n then (.more, output, ⟨s.sunk, s.given + output.length, s.held⟩)
    else (.empty, output, ⟨s.sunk, s.given + output.length, 0⟩)
  finish s := (if (expand s.sunk).length ≤ s.given then .done else .more, s)

def KeepingDecoder.yields (s : KeepingDecoder) (rest : List UInt8) : List UInt8 :=
  (expand (s.sunk ++ rest)).drop s.given

variable {expand}

theorem keepingDecoder_ok (hmono : ∀ a b, expand a <+: expand (a ++ b)) :
    (keepingDecoder expand inputBufferSize).Ok inputBufferSize KeepingDecoder.held
      (KeepingDecoder.yields expand) where
  sink_ok s data _ hroom := by
    simp only [keepingDecoder, if_pos hroom]
    exact ⟨trivial, trivial⟩
  sink_full s data _ hfull := by
    simp only [keepingDecoder, if_neg (not_lt.2 hfull)]
    exact ⟨trivial, trivial⟩
  sink_yields s data rest := by
    by_cases hroom : s.held < inputBufferSize
    · simp only [keepingDecoder, if_pos hroom, KeepingDecoder.yields, List.append_assoc]
    · simp only [keepingDecoder, if_neg hroom, List.take_zero, List.nil_append]
  poll_res s n := by
    simp only [keepingDecoder]
    split_ifs
    · exact .inr rfl
    · exact .inl rfl
  poll_length s n := by
    simp only [keepingDecoder]
    split_ifs <;> exact List.length_take_le _ _
  poll_yields s n rest := by
    obtain ⟨more, hmore⟩ := hmono s.sunk rest
    have hpiece : ∀ output : List UInt8, output = ((expand s.sunk).drop s.given).take n →
        (expand (s.sunk ++ rest)).drop s.given =
          output ++ (expand (s.sunk ++ rest)).drop (s.given + output.length) := by
      rintro output houtput
      have hprefix : output <+: (expand (s.sunk ++ rest)).drop s.given := by
        rw [houtput, ← hmore]
        exact (List.take_prefix _ _).trans ((List.prefix_append _ _).drop _)
      rw [← List.drop_drop]
      exact (List.prefix_iff_eq_append.1 hprefix).symm
    simp only [keepingDecoder]
    split_ifs <;> exact hpiece _ rfl
  poll_more s n h := by
    simp only [keepingDecoder] at h ⊢
    split_ifs at h ⊢ with hfull
    exact hfull
  poll_empty s n h := by
    simp only [keepingDecoder] at h ⊢
    split_ifs at h ⊢ with hfull
    refine ⟨rfl, ?_⟩
    rw [List.length_take, List.length_drop] at hfull
    rw [KeepingDecoder.yields, List.append_nil]
    refine List.drop_eq_nil_of_le ?_
    rw [List.length_take, List.length_drop]
    dsimp only
    omega

theorem keepingDecoder_expands (hnil : expand [] = []) :
    (keepingDecoder expand inputBufferSize).Expands KeepingDecoder.held
      (KeepingDecoder.yields expand) expand where
  reset_held _ := rfl
  reset_yields _ _ := rfl
  expand_nil := hnil
  finish s _ hdry := by
    rw [KeepingDecoder.yields, List.append_nil, List.drop_eq_nil_iff] at hdry
    simp only [keepingDecoder, if_pos hdry]

/-! ## Encoders -/

/-- The input, and what is left of the encoding once the input is complete. -/
structure KeepingEncoder where
  input : List UInt8
  pending : Option (List UInt8)
  deriving DecidableEq

def keepingEncoder (compress : List UInt8 → List UInt8) : HeatshrinkEncoder KeepingEncoder where
  reset _ := ⟨[], none⟩
  sink s data := (.ok, data.length, ⟨s.input ++ data, s.pending⟩)
  poll s n :=
    if n = 0 then (.errorMisuse, [], s)
    else
      match s.pending with
      | none => (.empty, [], s)
      | some rest => (.empty, rest.take n, ⟨s.input, some (rest.drop n)⟩)
  finish s :=
    match s.pending with
    | none => (.more, ⟨s.input, some (compress s.input)⟩)
    | some rest => (if rest = [] then .done else .more, s)

theorem keepingEncoder_ok {compress : List UInt8 → List UInt8}
    (hne : ∀ data, data ≠ [] → compress data ≠ []) :
    (keepingEncoder compress).Ok compress (fun s input output => s = ⟨input, none⟩ ∧ output = [])
      (fun _ => True) (fun s rest => s.pending = some rest) where
  reset _ := ⟨⟨rfl, rfl⟩, trivial⟩
  sink := by
    rintro s input output ⟨rfl, rfl⟩ - data hdata
    refine ⟨rfl, List.length_pos_iff.2 hdata, le_rfl, ?_, rfl⟩
    simp only [keepingEncoder, List.take_length]
  poll_zero _ := rfl
  poll := by
    rintro s input output ⟨rfl, rfl⟩ n hn
    simp only [keepingEncoder, if_neg hn.ne']
    exact ⟨Nat.zero_le _, ⟨trivial, rfl⟩, .inl ⟨trivial, trivial⟩⟩
  held_back := by
    rintro s input output ⟨rfl, rfl⟩ more hmore
    exact ⟨compress (input ++ more), hne _ hmore, rfl⟩
  finish := by
    rintro s input output ⟨rfl, rfl⟩ -
    exact ⟨rfl, compress input, rfl, rfl⟩
  poll_finishing := by
    intro s rest hrest n hn
    simp only [keepingEncoder, if_neg hn.ne', hrest]
    exact ⟨.inl trivial, trivial, trivial⟩
  finish_finishing := by
    intro s rest hrest
    simp only [keepingEncoder, hrest]
    exact ⟨trivial, trivial⟩

end KiisuFirmware

/-!
## When decoding a stream ends

What is left to decode is what the decoder will yield once it has been given the rest of the buffer
and of the input (`decodable`). A round of the outer loop gives some of it out and, unless the
output is full, moves input on into the decoder; once there is none left a round changes nothing, so
a read that asks for more than there is never ends (`decodeChunkLoop_starved`).
-/

namespace KiisuFirmware

variable {σ ρ : Type} {heatshrink : HeatshrinkDecoder σ} {readCb : CompressReadCb ρ}
  {inputBufferSize : ℕ} {held : σ → ℕ} {yields : σ → List UInt8 → List UInt8}
  {remaining : ρ → List UInt8}

/-! ## The statement -/

/-- A callback over a finite input: it returns some of what remains, nothing only at the end. -/
structure ReadsInput (readCb : CompressReadCb ρ) (remaining : ρ → List UInt8) : Prop where
  split : ∀ c n, (readCb c n).1 ++ remaining (readCb c n).2 = remaining c
  length : ∀ c n, (readCb c n).1.length ≤ n
  some : ∀ c n, 0 < n → remaining c ≠ [] → (readCb c n).1 ≠ []

/-- A stream as it was allocated, in any state: its buffer is as large as the decoder's. -/
structure CompressStreamDecoder.Ok (sd : CompressStreamDecoder σ ρ) (inputBufferSize : ℕ) :
    Prop where
  size : sd.decodeBufferSize = inputBufferSize
  pos : 0 < inputBufferSize
  fits : sd.decodeBuffer.length ≤ inputBufferSize

/-- All that can still be decoded. -/
def decodable (yields : σ → List UInt8 → List UInt8) (remaining : ρ → List UInt8)
    (sd : CompressStreamDecoder σ ρ) : List UInt8 :=
  yields sd.decoder (sd.decodeBuffer ++ remaining sd.readContext)

/-- A read of `n` bytes ends, and succeeds just if there are as many, which it then gives. -/
def ReadsExactly (heatshrink : HeatshrinkDecoder σ) (readCb : CompressReadCb ρ)
    (available : List UInt8) (sd : CompressStreamDecoder σ ρ) (n : ℕ) : Prop :=
  ∃ enough, ∀ rounds ≥ enough, ∃ result data sd',
    compressStreamDecoderRead heatshrink readCb rounds sd n = some (result, data, sd') ∧
      (result = true ↔ n ≤ available.length) ∧ (result = true → data = available.take n)

/-! ## The inner loops -/

section Loops

variable (hok : heatshrink.Ok inputBufferSize held yields)
include hok

theorem not_poll_failed (s : σ) (n : ℕ) : (heatshrink.poll s n).1.failed = false := by
  rcases hok.poll_res s n with h | h <;> rw [h] <;> rfl

theorem pollChunk_eq (rounds : ℕ) (s : σ) (n : ℕ) :
    pollChunk heatshrink (rounds + 1) s n = some (heatshrink.poll s n) := by
  have hmore : ¬((heatshrink.poll s n).1 = .more ∧ n - (heatshrink.poll s n).2.1.length ≠ 0) := by
    rintro ⟨hmore, hroom⟩
    rw [hok.poll_more s n hmore, Nat.sub_self] at hroom
    exact hroom rfl
  rw [pollChunk, not_poll_failed hok, if_neg Bool.false_ne_true, if_neg hmore]

theorem sinkChunk_eq {chunk : DecodeChunk σ ρ} (hsd : chunk.sd.Ok inputBufferSize)
    (hheld : held chunk.sd.decoder = 0) (hsink : chunk.canSinkMore = true) :
    ∃ decoder, (∀ rounds, sinkChunk heatshrink (rounds + 2) chunk =
        some (false, { chunk with sd := { chunk.sd with decoder, decodeBuffer := [] } })) ∧
      ∀ rest, yields decoder rest = yields chunk.sd.decoder (chunk.sd.decodeBuffer ++ rest) := by
  by_cases hempty : chunk.sd.decodeBuffer = []
  · refine ⟨chunk.sd.decoder, fun rounds => ?_, fun rest => by rw [hempty, List.nil_append]⟩
    rw [sinkChunk, if_neg fun h => h.1 hempty, ← hempty]
  · obtain ⟨hres, htaken⟩ := hok.sink_ok chunk.sd.decoder chunk.sd.decodeBuffer hempty
      (by rw [hheld]; exact hsd.pos)
    have hall : (heatshrink.sink chunk.sd.decoder chunk.sd.decodeBuffer).2.1 =
        chunk.sd.decodeBuffer.length := by
      rw [htaken, hheld, Nat.sub_zero, min_eq_right hsd.fits]
    refine ⟨(heatshrink.sink chunk.sd.decoder chunk.sd.decodeBuffer).2.2, fun rounds => ?_,
      fun rest => ?_⟩
    · have hfailed : HSDSinkRes.ok.failed = false := rfl
      rw [sinkChunk, if_pos ⟨hempty, hsink⟩]
      simp only [hres, hall, hfailed, Bool.false_eq_true, if_false, List.drop_length, decide_true]
      rw [sinkChunk, if_neg fun h => h.1 rfl, ← hsink]
    · rw [hok.sink_yields, hall, List.take_length]

end Loops

/-! ## The outer loop -/

/-- What holds before every round: `available` is what there was when the read began. -/
structure DecodeChunk.Inv (chunk : DecodeChunk σ ρ) (inputBufferSize : ℕ)
    (yields : σ → List UInt8 → List UInt8) (remaining : ρ → List UInt8) (available : List UInt8)
    (n : ℕ) : Prop where
  sd : chunk.sd.Ok inputBufferSize
  canSink : chunk.canSinkMore = true
  canRead : chunk.canReadMore = false → remaining chunk.sd.readContext = []
  room : chunk.decompressedChunk.length + chunk.decompChunkSize = n
  split : chunk.decompressedChunk ++ decodable yields remaining chunk.sd = available

/-- How much input has not reached the decoder. -/
def DecodeChunk.ahead (remaining : ρ → List UInt8) (chunk : DecodeChunk σ ρ) : ℕ :=
  chunk.sd.decodeBuffer.length + (remaining chunk.sd.readContext).length

theorem readChunk_frame (chunk : DecodeChunk σ ρ) :
    (readChunk readCb chunk).sd.decoder = chunk.sd.decoder ∧
      (readChunk readCb chunk).decompressedChunk = chunk.decompressedChunk ∧
      (readChunk readCb chunk).decompChunkSize = chunk.decompChunkSize ∧
      (readChunk readCb chunk).canSinkMore = chunk.canSinkMore := by
  unfold readChunk
  dsimp only
  split_ifs <;> exact ⟨rfl, rfl, rfl, rfl⟩

section Loop

variable (hreads : ReadsInput readCb remaining)
include hreads

/-- More input in the buffer is the same input; if none comes there is none. -/
theorem readChunk_eq {chunk : DecodeChunk σ ρ} (hsd : chunk.sd.Ok inputBufferSize)
    (hread : chunk.canReadMore = false → remaining chunk.sd.readContext = []) :
    (readChunk readCb chunk).sd.Ok inputBufferSize ∧
      (readChunk readCb chunk).sd.decodeBuffer ++
          remaining (readChunk readCb chunk).sd.readContext =
        chunk.sd.decodeBuffer ++ remaining chunk.sd.readContext ∧
      ((readChunk readCb chunk).canReadMore = false →
        remaining (readChunk readCb chunk).sd.readContext = []) ∧
      ((readChunk readCb chunk).sd.decodeBuffer = [] →
        remaining (readChunk readCb chunk).sd.readContext = []) := by
  unfold readChunk
  dsimp only
  by_cases hroom : chunk.canReadMore = true ∧
      chunk.sd.decodeBuffer.length < chunk.sd.decodeBufferSize
  · rw [if_pos hroom]
    obtain ⟨n, hn⟩ : ∃ n, n = chunk.sd.decodeBufferSize - chunk.sd.decodeBuffer.length := ⟨_, rfl⟩
    have hpos : 0 < n := by omega
    have hsplit := hreads.split chunk.sd.readContext n
    have hlength := hreads.length chunk.sd.readContext n
    have hnone : (readCb chunk.sd.readContext n).1 = [] →
        remaining (readCb chunk.sd.readContext n).2 = [] := by
      intro hnil
      by_contra hne
      rw [hnil, List.nil_append] at hsplit
      rw [hsplit] at hne
      exact hreads.some _ n hpos hne hnil
    rw [← hn]
    refine ⟨⟨hsd.size, hsd.pos, ?_⟩, ?_, fun hmore => ?_, fun hnil => ?_⟩
    · have hsize := hsd.size
      rw [List.length_append]
      omega
    · rw [List.append_assoc, hsplit]
    · refine hnone (List.length_eq_zero_iff.1 ?_)
      simpa using hmore
    · exact hnone (List.append_eq_nil_iff.1 hnil).2
  · rw [if_neg hroom]
    refine ⟨hsd, rfl, hread, fun hnil => hread ?_⟩
    rw [not_and', hnil, hsd.size] at hroom
    exact Bool.eq_false_iff.2 (hroom hsd.pos)

variable (hok : heatshrink.Ok inputBufferSize held yields)
include hok

theorem decodeChunkLoop_step {chunk : DecodeChunk σ ρ} {available : List UInt8} {n : ℕ}
    (hinv : chunk.Inv inputBufferSize yields remaining available n)
    (hroom : chunk.decompChunkSize -
      (heatshrink.poll chunk.sd.decoder chunk.decompChunkSize).2.1.length ≠ 0) :
    ∃ chunk', chunk'.Inv inputBufferSize yields remaining available n ∧
      chunk'.decompChunkSize ≠ 0 ∧
      (∀ rounds, decodeChunkLoop heatshrink readCb (rounds + 1) chunk =
        decodeChunkLoop heatshrink readCb rounds chunk') ∧
      (n ≤ available.length → chunk'.ahead remaining < chunk.ahead remaining) := by
  obtain ⟨p, hp⟩ : ∃ p, p = heatshrink.poll chunk.sd.decoder chunk.decompChunkSize := ⟨_, rfl⟩
  have hyields := hok.poll_yields chunk.sd.decoder chunk.decompChunkSize
  have hlength := hok.poll_length chunk.sd.decoder chunk.decompChunkSize
  have hmore := hok.poll_more chunk.sd.decoder chunk.decompChunkSize
  have hfailed := not_poll_failed hok chunk.sd.decoder chunk.decompChunkSize
  have hempty : p.1 = .empty := by
    rw [hp]
    refine (hok.poll_res chunk.sd.decoder chunk.decompChunkSize).resolve_right fun h => hroom ?_
    rw [hmore h, Nat.sub_self]
  obtain ⟨hheld, hdry⟩ := hok.poll_empty chunk.sd.decoder chunk.decompChunkSize (hp ▸ hempty)
  rw [← hp] at hyields hlength hfailed hheld hdry hroom
  obtain ⟨polled, hpolled⟩ : ∃ polled : DecodeChunk σ ρ, polled = { chunk with
    sd := { chunk.sd with decoder := p.2.2 }
    decompressedChunk := chunk.decompressedChunk ++ p.2.1
    decompChunkSize := chunk.decompChunkSize - p.2.1.length } := ⟨_, rfl⟩
  have hsd : polled.sd.Ok inputBufferSize := by
    rw [hpolled]
    exact ⟨hinv.sd.size, hinv.sd.pos, hinv.sd.fits⟩
  obtain ⟨hsd', hinput, hread', hnone⟩ := readChunk_eq hreads hsd
    (by rw [hpolled]; exact hinv.canRead)
  obtain ⟨hdecoder, hout, hsize, hsink⟩ := @readChunk_frame _ _ readCb polled
  obtain ⟨read, hread⟩ : ∃ read, read = readChunk readCb polled := ⟨_, rfl⟩
  rw [← hread] at hsd' hinput hread' hnone hdecoder hout hsize hsink
  rw [hpolled] at hdecoder hout hsize hsink hinput
  dsimp only at hdecoder hout hsize hsink hinput
  obtain ⟨decoder, hrun, hsunk⟩ := sinkChunk_eq hok hsd' (by rw [hdecoder]; exact hheld)
    (by rw [hsink]; exact hinv.canSink)
  have hdecodable : chunk.decompressedChunk ++ p.2.1 ++
      yields read.sd.decoder (read.sd.decodeBuffer ++ remaining read.sd.readContext) =
        available := by
    rw [hdecoder, hinput, List.append_assoc, ← hyields]
    exact hinv.split
  have hrest : chunk.decompressedChunk ++ p.2.1 ++ yields decoder (remaining read.sd.readContext) =
      available := by
    rw [hsunk]
    exact hdecodable
  refine ⟨{ read with sd := { read.sd with decoder, decodeBuffer := [] } }, ⟨?_, ?_, ?_, ?_, ?_⟩,
    ?_, fun rounds => ?_, fun henough => ?_⟩
  · exact ⟨hsd'.size, hsd'.pos, Nat.zero_le _⟩
  · rw [hsink]
    exact hinv.canSink
  · exact hread'
  · have hall := hinv.room
    rw [hout, hsize, List.length_append]
    omega
  · rw [hout]
    exact hrest
  · rw [hsize]
    exact hroom
  · rw [decodeChunkLoop, pollChunk_eq hok, Option.bind_some, ← hp]
    simp only [hfailed, Bool.false_eq_true, if_false, if_neg hroom]
    rw [← hpolled, ← hread, hrun, Option.bind_some]
    rfl
  · have hbuffer : read.sd.decodeBuffer ≠ [] := by
      -- with no input left the decoder is dry, and what was given out is all there was
      intro hnil
      rw [hnone hnil, hnil] at hdecodable
      have hall := hinv.room
      have hlen := congrArg List.length hdecodable
      rw [hdecoder, List.append_nil, hdry, List.append_nil, List.length_append] at hlen
      omega
    have hlen := congrArg List.length hinput
    have hpos := List.length_pos_iff.2 hbuffer
    rw [List.length_append, List.length_append] at hlen
    simp only [DecodeChunk.ahead, List.length_nil]
    omega

omit hreads in
theorem decodeChunkLoop_full {chunk : DecodeChunk σ ρ} {available : List UInt8} {n : ℕ}
    (hinv : chunk.Inv inputBufferSize yields remaining available n)
    (hroom : chunk.decompChunkSize -
      (heatshrink.poll chunk.sd.decoder chunk.decompChunkSize).2.1.length = 0) (rounds : ℕ) :
    n ≤ available.length ∧
      ∃ chunk', decodeChunkLoop heatshrink readCb (rounds + 1) chunk = some (true, chunk') ∧
        chunk'.decompressedChunk = available.take n := by
  obtain ⟨p, hp⟩ : ∃ p, p = heatshrink.poll chunk.sd.decoder chunk.decompChunkSize := ⟨_, rfl⟩
  have hyields := hok.poll_yields chunk.sd.decoder chunk.decompChunkSize
  have hlength := hok.poll_length chunk.sd.decoder chunk.decompChunkSize
  have hfailed := not_poll_failed hok chunk.sd.decoder chunk.decompChunkSize
  rw [← hp] at hyields hlength hfailed hroom
  have hall := hinv.room
  have hgiven : chunk.decompressedChunk ++ p.2.1 = available.take n := by
    have hsplit := hinv.split
    rw [decodable, hyields, ← List.append_assoc] at hsplit
    rw [← hsplit]
    refine (List.take_left' ?_).symm
    rw [List.length_append]
    omega
  refine ⟨?_, { chunk with
    sd := { chunk.sd with decoder := p.2.2 }
    decompressedChunk := chunk.decompressedChunk ++ p.2.1
    decompChunkSize := chunk.decompChunkSize - p.2.1.length }, ?_, hgiven⟩
  · have hlen := congrArg List.length hgiven
    rw [List.length_append, List.length_take] at hlen
    omega
  · rw [decodeChunkLoop, pollChunk_eq hok, Option.bind_some, ← hp]
    simp only [hfailed, Bool.false_eq_true, if_false, if_pos hroom]

theorem decodeChunkLoop_ends {available : List UInt8} {n : ℕ} (henough : n ≤ available.length) :
    ∀ (rounds : ℕ) {chunk : DecodeChunk σ ρ},
      chunk.Inv inputBufferSize yields remaining available n → chunk.ahead remaining < rounds →
      ∃ chunk', decodeChunkLoop heatshrink readCb rounds chunk = some (true, chunk') ∧
        chunk'.decompressedChunk = available.take n
  | 0, _, _, hrounds => absurd hrounds (Nat.not_lt_zero _)
  | rounds + 1, chunk, hinv, hrounds => by
    by_cases hroom : chunk.decompChunkSize -
        (heatshrink.poll chunk.sd.decoder chunk.decompChunkSize).2.1.length = 0
    · exact (decodeChunkLoop_full hok hinv hroom rounds).2
    · obtain ⟨chunk', hinv', -, hstep, hless⟩ := decodeChunkLoop_step hreads hok hinv hroom
      rw [hstep]
      exact decodeChunkLoop_ends henough rounds hinv' (by have := hless henough; omega)

theorem decodeChunkLoop_starved {available : List UInt8} {n : ℕ} (hshort : available.length < n) :
    ∀ (rounds : ℕ) {chunk : DecodeChunk σ ρ},
      chunk.Inv inputBufferSize yields remaining available n →
      decodeChunkLoop heatshrink readCb rounds chunk = none
  | 0, _, _ => rfl
  | rounds + 1, chunk, hinv => by
    by_cases hroom : chunk.decompChunkSize -
        (heatshrink.poll chunk.sd.decoder chunk.decompChunkSize).2.1.length = 0
    · have hle := (@decodeChunkLoop_full _ _ _ readCb _ _ _ _ hok _ _ _ hinv hroom rounds).1
      exact absurd hle (not_le.2 hshort)
    · obtain ⟨chunk', hinv', -, hstep, -⟩ := decodeChunkLoop_step hreads hok hinv hroom
      rw [hstep]
      exact decodeChunkLoop_starved hshort rounds hinv'

end Loop

/-! ## A read -/

theorem DecodeChunk.inv_start {sd : CompressStreamDecoder σ ρ} (hsd : sd.Ok inputBufferSize)
    (n : ℕ) : DecodeChunk.Inv ⟨sd, [], n, true, true⟩ inputBufferSize yields remaining
      (decodable yields remaining sd) n :=
  ⟨hsd, rfl, (by cases ·), Nat.zero_add _, rfl⟩

/-- A read is exact just if there is as much to decode as it asks for, and otherwise never ends. -/
theorem compressStreamDecoderRead_iff (hok : heatshrink.Ok inputBufferSize held yields)
    (hreads : ReadsInput readCb remaining) (sd : CompressStreamDecoder σ ρ)
    (hsd : sd.Ok inputBufferSize) (n : ℕ) :
    ReadsExactly heatshrink readCb (decodable yields remaining sd) sd n ↔
      n ≤ (decodable yields remaining sd).length := by
  have hinv := @DecodeChunk.inv_start _ _ _ yields remaining sd hsd n
  constructor
  · rintro ⟨enough, hall⟩
    by_contra hshort
    obtain ⟨result, data, sd', hrun, -⟩ := hall enough le_rfl
    have hnone := decodeChunkLoop_starved hreads hok (not_le.1 hshort) enough hinv
    rw [compressStreamDecoderRead, compressDecodeStreamChunk, hnone] at hrun
    cases hrun
  · intro henough
    refine ⟨DecodeChunk.ahead remaining ⟨sd, [], n, true, true⟩ + 1, fun rounds hrounds => ?_⟩
    obtain ⟨chunk', hrun, hdata⟩ := decodeChunkLoop_ends hreads hok henough rounds hinv hrounds
    refine ⟨true, chunk'.decompressedChunk, { chunk'.sd with
      streamPosition := sizeT (chunk'.sd.streamPosition + n) }, ?_,
      ⟨fun _ => henough, fun _ => rfl⟩, fun _ => hdata⟩
    rw [compressStreamDecoderRead, compressDecodeStreamChunk, hrun]
    rfl

/-- A file of bytes that is read from. -/
def readList : CompressReadCb (List UInt8) := fun bytes n => (bytes.take n, bytes.drop n)

theorem readList_reads : ReadsInput readList id where
  split bytes n := List.take_append_drop n bytes
  length bytes n := List.length_take_le n bytes
  some bytes n hn hbytes := by
    simp only [readList, ne_eq, List.take_eq_nil_iff, not_or]
    exact ⟨hn.ne', hbytes⟩

/-- The codec's answers for the letter a: a literal, and a run of 16 more. -/
def expandLetters (bytes : List UInt8) : List UInt8 :=
  if [0xB0, 0x80, 0x3C].isPrefixOf bytes then List.replicate 17 0x61
  else if [0xB0, 0x80].isPrefixOf bytes then [0x61] else []

theorem expandLetters_mono (a b : List UInt8) : expandLetters a <+: expandLetters (a ++ b) := by
  have hlonger : ∀ p : List UInt8, p.isPrefixOf a = true → p.isPrefixOf (a ++ b) = true := by
    intro p hp
    rw [List.isPrefixOf_iff_prefix] at hp ⊢
    exact hp.trans (List.prefix_append a b)
  unfold expandLetters
  by_cases hrun : [0xB0, 0x80, 0x3C].isPrefixOf a = true
  · rw [if_pos hrun, if_pos (hlonger _ hrun)]
  · rw [if_neg hrun]
    by_cases hliteral : [0xB0, 0x80].isPrefixOf a = true
    · rw [if_pos hliteral, if_pos (hlonger _ hliteral)]
      split_ifs
      · exact ⟨List.replicate 16 0x61, rfl⟩
      · exact List.prefix_rfl
    · rw [if_neg hliteral]
      exact List.nil_prefix

/-- A stream that was just opened on these bytes. -/
def openBytes (bytes : List UInt8) : CompressStreamDecoder KeepingDecoder (List UInt8) :=
  ⟨⟨[], 0, 0⟩, 0, 256, [], bytes⟩

/-- What can be decoded of it. -/
def decodableLetters (bytes : List UInt8) : List UInt8 :=
  decodable (KeepingDecoder.yields expandLetters) id (openBytes bytes)

theorem compressStreamDecoderRead_iff_letters :
    ReadsExactly (keepingDecoder expandLetters 256) readList (decodableLetters [0xB0, 0x80, 0x3C])
        (openBytes [0xB0, 0x80, 0x3C]) 17 ↔
      17 ≤ (decodableLetters [0xB0, 0x80, 0x3C]).length :=
  compressStreamDecoderRead_iff (keepingDecoder_ok 256 expandLetters_mono) readList_reads
    (openBytes [0xB0, 0x80, 0x3C]) ⟨rfl, by decide, by decide⟩ 17

/-- The first read from an empty file never ends. -/
theorem not_readsExactly_empty :
    ¬ReadsExactly (keepingDecoder expandLetters 256) readList (decodableLetters [])
      (openBytes []) 1 := by
  rintro ⟨enough, hall⟩
  obtain ⟨result, data, sd', hrun, -⟩ := hall enough le_rfl
  have hinv := @DecodeChunk.inv_start _ _ 256 (KeepingDecoder.yields expandLetters) id
    (openBytes []) ⟨rfl, by decide, by decide⟩ 1
  have hnone := decodeChunkLoop_starved readList_reads (keepingDecoder_ok 256 expandLetters_mono)
    (by decide) enough hinv
  rw [compressStreamDecoderRead, compressDecodeStreamChunk, hnone] at hrun
  cases hrun

end KiisuFirmware
