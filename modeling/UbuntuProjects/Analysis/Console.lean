import UbuntuProjects.Model.Console

/-!
# What `reads` leaves in its buffer, and when it returns

The letters of a line go to the buffer until the counter is past the length, and the NUL is
stored one byte behind the place that follows them (console.asm:102). A byte that is not
delivered leaves the last one in `.inputchar`, so that behind the end of the input the loop
looks at the same byte again and again.
-/

set_option autoImplicit false

namespace UbuntuProjects.Console

open Memory X86

/-- The bytes from `a` to `z`. -/
def letter (b : UInt8) : Bool := decide (97 ≤ b ∧ b ≤ 122)

/-- INTERNAL: bytes from 128 on are negative, and so in front of the letters. -/
theorem letter_eq_false_iff {b : UInt8} : letter b = false ↔ b.toInt8 < 97 ∨ 122 < b.toInt8 := by
  have hsigned : b.toInt8.toInt = if 2 * b.toNat < 256 then (b.toNat : ℤ) else b.toNat - 256 :=
    BitVec.toInt_eq_toNat_cond _
  have hb : b.toNat < 256 := b.toNat_lt
  unfold letter
  rw [decide_eq_false_iff_not, UInt8.le_iff_toNat_le, UInt8.le_iff_toNat_le,
    Int8.lt_iff_toInt_lt, Int8.lt_iff_toInt_lt, hsigned,
    show (97 : UInt8).toNat = 97 from rfl, show (122 : UInt8).toNat = 122 from rfl,
    show (97 : Int8).toInt = 97 from rfl, show (122 : Int8).toInt = 122 from rfl]
  omega

variable {input : ℕ → Option UInt8} {inputchar buf : ℕ} {rsi : BitVec 64} {m : Mem}
  {s : Reading} {al : UInt8}

/-! ## A turn -/

section Turns

/-- INTERNAL: the newline. -/
theorem readcTurn_newline (hal : (readc input inputchar s).mem inputchar = NL) :
    readcTurn input inputchar rsi s =
      some (.leave ((readc input inputchar s).store (s.r12 + 1) [0])) := by
  unfold readcTurn
  dsimp only
  rw [hal, if_pos rfl]

/-- INTERNAL: a byte that is neither the newline nor a letter. -/
theorem readcTurn_other (hal : (readc input inputchar s).mem inputchar = al) (hnl : al ≠ NL)
    (hother : letter al = false) :
    readcTurn input inputchar rsi s =
      some (.again ⟨readc input inputchar s, s.calls + 1, s.r12, s.r14⟩) := by
  unfold readcTurn
  dsimp only
  rw [hal, if_neg hnl]
  rcases letter_eq_false_iff.mp hother with hlow | hhigh
  · rw [if_pos hlow]
  · by_cases hlow : al.toInt8 < 97
    · rw [if_pos hlow]
    · rw [if_neg hlow, if_pos hhigh]

/-- INTERNAL: a letter. -/
theorem readcTurn_letter (hal : (readc input inputchar s).mem inputchar = al) (hnl : al ≠ NL)
    (hletter : letter al = true) :
    readcTurn input inputchar rsi s =
      if rsi < s.r14 + 1 then
        some (.again ⟨readc input inputchar s, s.calls + 1, s.r12, s.r14 + 1⟩)
      else
        some (.again ⟨(readc input inputchar s).store s.r12 [al], s.calls + 1, s.r12 + 1,
          s.r14 + 1⟩) := by
  have hbounds : ¬(al.toInt8 < 97 ∨ 122 < al.toInt8) := by
    rw [← letter_eq_false_iff, hletter]
    exact Bool.false_ne_true.symm
  rw [not_or] at hbounds
  unfold readcTurn
  dsimp only
  rw [hal, if_neg hnl, if_neg hbounds.1, if_neg hbounds.2]

/-- INTERNAL: the loop goes on, and the byte stays in `.inputchar`. -/
theorem readcTurn_again (hal : (readc input inputchar s).mem inputchar ≠ NL) :
    ∃ s', readcTurn input inputchar rsi s = some (.again s') ∧ s'.calls = s.calls + 1 ∧
      s'.store.mem inputchar = (readc input inputchar s).mem inputchar := by
  cases hletter : letter ((readc input inputchar s).mem inputchar) with
  | false => exact ⟨_, readcTurn_other rfl hal hletter, rfl, rfl⟩
  | true =>
    rw [readcTurn_letter rfl hal hletter]
    by_cases hfull : rsi < s.r14 + 1
    · rw [if_pos hfull]
      exact ⟨_, rfl, rfl, rfl⟩
    · rw [if_neg hfull]
      refine ⟨_, rfl, rfl, ?_⟩
      -- the letter may be stored over itself
      by_cases hplace : inputchar = s.r12
      · dsimp only
        rw [← hplace]
        exact Tracked.store_byte_self
      · exact Tracked.store_byte_of_ne hplace

end Turns

/-! ## The letters of a line -/

/-- How many of the first `k` letters are stored: a counter of 64 bits starts again. -/
def stored (n k : ℕ) : ℕ := (List.range k).countP fun i => decide ((i + 1) % 2 ^ 64 ≤ n)

section Stored

variable {n k : ℕ}

/-- INTERNAL: one more letter. -/
theorem stored_succ (n k : ℕ) :
    stored n (k + 1) = stored n k + if (k + 1) % 2 ^ 64 ≤ n then 1 else 0 := by
  unfold stored
  rw [List.range_succ, List.countP_append, List.countP_singleton]
  simp only [decide_eq_true_eq]

/-- INTERNAL: before the counter starts again. -/
theorem stored_of_lt (hk : k < 2 ^ 64) : stored n k = min n k := by
  induction k with
  | zero => exact (Nat.min_zero n).symm
  | succ k ih =>
    rw [stored_succ, ih (Nat.lt_of_succ_lt hk), Nat.mod_eq_of_lt hk]
    by_cases hle : k + 1 ≤ n
    · rw [if_pos hle]
      omega
    · rw [if_neg hle]
      omega

/-- INTERNAL: the letter at which the counter is zero is stored behind the others. -/
theorem lt_stored (hn : n < 2 ^ 64) (hk : 2 ^ 64 ≤ k) : n < stored n k := by
  obtain ⟨d, rfl⟩ := Nat.exists_eq_add_of_le hk
  have hwrap : stored n (2 ^ 64 - 1 + 1) = n + 1 := by
    rw [stored_succ, stored_of_lt (by omega), if_pos (by omega)]
    omega
  have hmono : stored n (2 ^ 64) ≤ stored n (2 ^ 64 + d) := by
    unfold stored
    rw [List.range_add, List.countP_append]
    exact Nat.le_add_right _ _
  rw [show 2 ^ 64 - 1 + 1 = 2 ^ 64 from rfl] at hwrap
  omega

end Stored

/-- What the loop has done with the letters `text`. -/
structure Filled (m : Mem) (inputchar buf n : ℕ) (text : List UInt8) (s : Reading) : Prop where
  r14 : s.r14 = BitVec.ofNat 64 text.length
  r12 : s.r12 = buf + stored n text.length
  written : ∀ x ∈ s.store.written, x = inputchar ∨ buf ≤ x ∧ x < s.r12
  letters : ∀ x, x ≠ inputchar → buf ≤ x → x < s.r12 → letter (s.store.mem x) = true
  copied : text.length < 2 ^ 64 → read s.store.mem buf (min n text.length) = text.take n
  rest : ∀ x, x ≠ inputchar → s.r12 ≤ x → s.store.mem x = m x

/-- The buffer of `n + 1` bytes is not where `.inputchar` is. -/
def Apart (inputchar buf n : ℕ) : Prop := ∀ x, buf ≤ x → x ≤ buf + n → x ≠ inputchar

section Letters

variable {n : ℕ} {text : List UInt8} {b : UInt8} {t : Tracked}

/-- INTERNAL: what is read of the buffer is not in `.inputchar`. -/
theorem read_store_inputchar (hout : Apart inputchar buf n) {k : ℕ} (hk : k ≤ n) :
    read (t.store inputchar [b]).mem buf k = read t.mem buf k := by
  apply read_congr
  intro i hi
  exact Tracked.store_byte_of_ne (hout _ (Nat.le_add_right _ _) (by omega))

/-- INTERNAL: the byte that is read is stored. -/
theorem Filled.stored_inputchar (hs : Filled m inputchar buf n text s) (hout : Apart inputchar buf n)
    (b : UInt8) :
    Filled m inputchar buf n text { s with store := s.store.store inputchar [b] } where
  r14 := hs.r14
  r12 := hs.r12
  written x hx := by
    rcases Tracked.mem_written_store_byte.mp hx with hx | hx
    · exact hs.written x hx
    · exact Or.inl hx
  letters x hne hlo hhi := by
    dsimp only
    rw [Tracked.store_byte_of_ne hne]
    exact hs.letters x hne hlo hhi
  copied hlen := by
    dsimp only
    rw [read_store_inputchar hout (Nat.min_le_left _ _)]
    exact hs.copied hlen
  rest x hne hhi := by
    dsimp only
    rw [Tracked.store_byte_of_ne hne]
    exact hs.rest x hne hhi

/-- INTERNAL: the counter behind one more letter. -/
theorem Filled.counter (hs : Filled m inputchar buf n text s) (b : UInt8) :
    s.r14 + 1 = BitVec.ofNat 64 (text ++ [b]).length := by
  rw [hs.r14, List.length_append, BitVec.ofNat_add]
  rfl

/-- INTERNAL: the comparison of the counter. -/
theorem Filled.full_iff (hs : Filled m inputchar buf rsi.toNat text s) :
    rsi < s.r14 + 1 ↔ ¬(text.length + 1) % 2 ^ 64 ≤ rsi.toNat := by
  rw [hs.counter 0, BitVec.lt_def, BitVec.toNat_ofNat, List.length_append, Nat.not_le]
  rfl

/-- INTERNAL: a letter for which the buffer is full. -/
theorem Filled.surplus (hs : Filled m inputchar buf n text s)
    (hfull : ¬(text.length + 1) % 2 ^ 64 ≤ n) (b : UInt8) (calls : ℕ) :
    Filled m inputchar buf n (text ++ [b]) ⟨s.store, calls, s.r12, s.r14 + 1⟩ where
  r14 := hs.counter b
  r12 := by
    rw [List.length_append, List.length_singleton, stored_succ, if_neg hfull]
    exact hs.r12
  written := hs.written
  letters := hs.letters
  copied hlen := by
    rw [List.length_append, List.length_singleton] at hlen ⊢
    rw [Nat.mod_eq_of_lt hlen] at hfull
    have hle : n ≤ text.length := by omega
    rw [List.take_append_of_le_length hle, ← hs.copied (by omega)]
    congr 1
    omega
  rest := hs.rest

/-- INTERNAL: a letter that is stored. -/
theorem Filled.letter (hs : Filled m inputchar buf n text s)
    (hroom : (text.length + 1) % 2 ^ 64 ≤ n) (hb : letter b = true) (calls : ℕ) :
    Filled m inputchar buf n (text ++ [b])
      ⟨s.store.store s.r12 [b], calls, s.r12 + 1, s.r14 + 1⟩ where
  r14 := hs.counter b
  r12 := by
    rw [List.length_append, List.length_singleton, stored_succ, if_pos hroom, ← Nat.add_assoc,
      ← hs.r12]
  written x hx := by
    have hr12 := hs.r12
    rcases Tracked.mem_written_store_byte.mp hx with hx | rfl
    · apply (hs.written x hx).imp_right
      rintro ⟨hlo, hhi⟩
      exact ⟨hlo, Nat.lt_succ_of_lt hhi⟩
    · exact Or.inr ⟨by omega, Nat.lt_succ_self _⟩
  letters x hne hlo hhi := by
    rcases Nat.lt_succ_iff_lt_or_eq.mp hhi with hlt | rfl
    · dsimp only
      rw [Tracked.store_byte_of_ne (Nat.ne_of_lt hlt)]
      exact hs.letters x hne hlo hlt
    · dsimp only
      rw [Tracked.store_byte_self]
      exact hb
  copied hlen := by
    rw [List.length_append, List.length_singleton] at hlen ⊢
    rw [Nat.mod_eq_of_lt hlen] at hroom
    have hr12 : s.r12 = buf + text.length := by
      rw [hs.r12, stored_of_lt (by omega), Nat.min_eq_right (by omega)]
    have htext := hs.copied (by omega)
    rw [Nat.min_eq_right (by omega), List.take_of_length_le (by omega)] at htext
    rw [Nat.min_eq_right hroom, List.take_of_length_le (by simpa using hroom), hr12]
    have hone : 1 ≤ [b].length := Nat.le_refl 1
    show read (write s.store.mem (buf + text.length) [b]) buf (text.length + 1) = _
    rw [read_write hone, htext]
    rfl
  rest x hne hhi := by
    have hlt : s.r12 + 1 ≤ x := hhi
    dsimp only
    rw [Tracked.store_byte_of_ne (by omega)]
    exact hs.rest x hne (by omega)

/-- **One byte of a line.** -/
theorem Filled.step (hs : Filled m inputchar buf rsi.toNat text s)
    (hout : Apart inputchar buf rsi.toNat) (hin : input s.calls = some b) (hnl : b ≠ NL) :
    ∃ s', readcTurn input inputchar rsi s = some (.again s') ∧
      Filled m inputchar buf rsi.toNat (text ++ [b].filter Console.letter) s' ∧
      s'.calls = s.calls + 1 := by
  have hreadc : readc input inputchar s = s.store.store inputchar [b] := by
    unfold readc
    rw [hin]
  have hal : (readc input inputchar s).mem inputchar = b := by
    rw [hreadc]
    exact Tracked.store_byte_self
  have hread := hs.stored_inputchar hout b
  cases hletter : Console.letter b with
  | false =>
    rw [readcTurn_other hal hnl hletter, List.filter_singleton, hletter, hreadc, cond_false,
      List.append_nil]
    exact ⟨_, rfl, ⟨hread.r14, hread.r12, hread.written, hread.letters, hread.copied, hread.rest⟩,
      rfl⟩
  | true =>
    rw [readcTurn_letter hal hnl hletter, List.filter_singleton, hletter, hreadc, cond_true]
    by_cases hfull : rsi < s.r14 + 1
    · rw [if_pos hfull]
      exact ⟨_, rfl, hread.surplus (hs.full_iff.mp hfull) b _, rfl⟩
    · rw [if_neg hfull]
      exact ⟨_, rfl, hread.letter (not_not.mp (mt hs.full_iff.mpr hfull)) hletter _, rfl⟩

end Letters

/-! ## A line -/

/-- What the loop has done with the first `i` bytes of a line. -/
structure Reached (m : Mem) (inputchar buf n : ℕ) (typed : List UInt8) (i : ℕ) (s : Reading) :
    Prop where
  filled : Filled m inputchar buf n ((typed.take i).filter letter) s
  calls : s.calls = i

/-- The right result: nothing else is written, and the first `n` letters stand in the buffer,
with a NUL behind them. -/
structure Fills (inputchar buf n : ℕ) (text : List UInt8) (t : Tracked) : Prop where
  written : ∀ x ∈ t.written, buf ≤ x ∧ x ≤ buf + n ∨ x = inputchar
  copied : read t.mem buf (min n text.length) = text.take n
  nul : t.mem (buf + min n text.length) = 0

section Lines

variable {n : ℕ} {typed text : List UInt8}

/-- INTERNAL: `reads` before its first byte. -/
theorem filled_start : Filled m inputchar buf n [] ⟨⟨m, []⟩, 0, buf, 0⟩ where
  r14 := rfl
  r12 := rfl
  written x hx := absurd hx List.not_mem_nil
  letters x _ hlo hhi := absurd hhi (Nat.not_lt_of_le hlo)
  copied _ := by
    rw [List.take_nil, List.length_nil, Nat.min_zero]
    rfl
  rest _ _ _ := rfl

/-- INTERNAL: the bytes in front of the newline. -/
theorem reads_line (hout : Apart inputchar buf rsi.toNat)
    (htyped : ∀ i, i < typed.length → input i = typed[i]?) (hnl : NL ∉ typed) :
    ∃ s, Reached m inputchar buf rsi.toNat typed typed.length s ∧
      ∀ fuel, loop (readcTurn input inputchar rsi) (typed.length + fuel) ⟨⟨m, []⟩, 0, buf, 0⟩ =
        loop (readcTurn input inputchar rsi) fuel s := by
  apply loop_run
  · exact ⟨filled_start, rfl⟩
  · rintro i s hi ⟨hs, hcalls⟩
    have hin : input s.calls = some typed[i] := by
      rw [hcalls, htyped i hi, List.getElem?_eq_getElem hi]
    have hne : typed[i] ≠ NL := by
      intro heq
      exact hnl (heq ▸ List.getElem_mem hi)
    obtain ⟨s', hagain, hs', hcalls'⟩ := hs.step hout hin hne
    refine ⟨s', hagain, ?_, hcalls'.trans (congrArg (· + 1) hcalls)⟩
    rw [List.take_add_one, List.getElem?_eq_getElem hi, List.filter_append]
    exact hs'

/-- INTERNAL: the buffer behind the newline. -/
theorem Filled.fills_iff (hs : Filled m inputchar buf n text s) (hout : Apart inputchar buf n)
    (hn : n < 2 ^ 64) (b : UInt8) :
    Fills inputchar buf n text ((s.store.store inputchar [b]).store (s.r12 + 1) [0]) ↔
      (text.length < n ∨ inputchar = buf + n + 1 ∧ text.length < 2 ^ 64) ∧
        m (buf + min n text.length) = 0 := by
  have hread := hs.stored_inputchar hout b
  have hr12 := hs.r12
  by_cases hlen : text.length < 2 ^ 64
  · rw [stored_of_lt hlen] at hr12
    have hnul : ((s.store.store inputchar [b]).store (s.r12 + 1) [0]).mem
        (buf + min n text.length) = m (buf + min n text.length) := by
      rw [Tracked.store_byte_of_ne (by omega)]
      exact hread.rest _ (hout _ (by omega) (by omega)) (Nat.le_of_eq hr12)
    constructor
    · intro h
      refine ⟨?_, hnul.symm.trans h.nul⟩
      rcases h.written _ (Tracked.mem_written_store_byte.mpr (Or.inr rfl)) with hin | hin
      · exact Or.inl (by omega)
      · by_cases hlt : text.length < n
        · exact Or.inl hlt
        · exact Or.inr ⟨by omega, hlen⟩
    · rintro ⟨hplace, hzero⟩
      refine ⟨?_, ?_, hnul.trans hzero⟩
      · intro x hx
        rcases Tracked.mem_written_store_byte.mp hx with hx | rfl
        · rcases hread.written x hx with hx | ⟨hlo, hhi⟩
          · exact Or.inr hx
          · have hlt : x < s.r12 := hhi
            exact Or.inl ⟨hlo, by omega⟩
        · omega
      · rw [← hread.copied hlen]
        apply read_congr
        intro i hi
        exact Tracked.store_byte_of_ne (by omega)
  · -- a letter has been stored in the last byte of the buffer
    have hpast := lt_stored hn (Nat.le_of_not_lt hlen)
    have hletter := hread.letters (buf + n) (hout _ (Nat.le_add_right _ _) (Nat.le_refl _))
      (Nat.le_add_right _ _) (by dsimp only; omega)
    constructor
    · intro h
      have hnul := h.nul
      rw [Nat.min_eq_left (by omega), Tracked.store_byte_of_ne (by omega)] at hnul
      dsimp only at hletter
      rw [hnul] at hletter
      exact absurd hletter (by decide)
    · omega

end Lines

/-- **What `reads` leaves in its buffer.** For a buffer of `n + 1` bytes the first `n` letters
of the line stand in it, with a NUL behind them and no byte written outside, exactly when there
are fewer letters than `n` and their place was followed by a NUL before; with `.inputchar`
right behind the buffer there may be more of them. -/
theorem reads_fills_iff (input : ℕ → Option UInt8) (typed : List UInt8)
    (htyped : ∀ i, i < typed.length → input i = typed[i]?) (hnl : NL ∉ typed)
    (hend : input typed.length = some NL) (inputchar : ℕ) (m : Mem) (buf : ℕ) (rsi : BitVec 64)
    (hout : Apart inputchar buf rsi.toNat) (fuel : ℕ) (hfuel : typed.length < fuel) :
    ∃ t, reads fuel input inputchar m buf rsi = some t ∧
      (Fills inputchar buf rsi.toNat (typed.filter letter) t ↔
        ((typed.filter letter).length < rsi.toNat ∨
            inputchar = buf + rsi.toNat + 1 ∧ (typed.filter letter).length < 2 ^ 64) ∧
          m (buf + min rsi.toNat (typed.filter letter).length) = 0) := by
  obtain ⟨s, ⟨hs, hcalls⟩, hrun⟩ := reads_line hout htyped hnl
  rw [List.take_length] at hs
  obtain ⟨turns, rfl⟩ := Nat.exists_eq_add_of_lt hfuel
  have hreadc : readc input inputchar s = s.store.store inputchar [NL] := by
    unfold readc
    rw [hcalls, hend]
  have hleave : readcTurn input inputchar rsi s =
      some (.leave ((s.store.store inputchar [NL]).store (s.r12 + 1) [0])) := by
    rw [readcTurn_newline (hreadc ▸ Tracked.store_byte_self), hreadc]
  exact ⟨_, (hrun (turns + 1)).trans (loop_leave hleave), hs.fills_iff hout rsi.isLt NL⟩

/-- One letter more than the buffer takes, and `.inputchar` right behind the buffer. -/
theorem reads_fills_iff_surplus :
    ∃ m : Mem, m 0 = 65 ∧ m 1 = 65 ∧ ∃ t,
      reads 4 (fun i => [97, 98, 99, NL][i]?) 3 m 0 2 = some t ∧ Fills 3 0 2 [97, 98, 99] t := by
  let m : Mem := fun i => [65, 65].getD i 0
  have htyped : ∀ i, i < [97, 98, 99].length →
      ([97, 98, 99] ++ [NL])[i]? = [97, 98, 99][i]? := fun i hi => List.getElem?_append_left hi
  obtain ⟨t, ht, hiff⟩ := reads_fills_iff (fun i => [97, 98, 99, NL][i]?) [97, 98, 99]
    htyped (by decide) rfl 3 m 0 2
    (by intro x _ hx heq; rw [heq] at hx; exact absurd hx (by decide)) 4 (by decide)
  exact ⟨m, rfl, rfl, t, ht, hiff.mpr ⟨Or.inr ⟨rfl, by decide⟩, rfl⟩⟩

/-- A letter and a buffer that was not cleared: the byte behind the letter stays. -/
theorem reads_keeps_byte :
    ∃ t, reads 2 (fun i => [97, NL][i]?) 9 (fun _ => 65) 0 2 = some t ∧ t.mem 1 = 65 ∧
      ¬Fills 9 0 2 [97] t := by
  refine ⟨_, rfl, by decide, ?_⟩
  intro h
  exact absurd h.nul (by decide)

/-! ## The end of the input -/

section Streams

variable {stream typed : List UInt8}

/-- INTERNAL: with a newline the loop ends, wherever the letters are stored. -/
theorem reads_ends (htyped : ∀ i, i < typed.length → input i = typed[i]?)
    (hend : input typed.length = some NL) (hnl : NL ∉ typed) :
    ∃ t, reads (typed.length + 1) input inputchar m buf rsi = some t := by
  have hturn : ∀ s : Reading, s.calls ≤ typed.length →
      (∃ t, readcTurn input inputchar rsi s = some (.leave t) ∧ True) ∨
        ∃ s', readcTurn input inputchar rsi s = some (.again s') ∧ s'.calls ≤ typed.length ∧
          typed.length - s'.calls < typed.length - s.calls := by
    intro s hcalls
    rcases Nat.lt_or_eq_of_le hcalls with hlt | heq
    · have hbyte : (readc input inputchar s).mem inputchar = typed[s.calls] := by
        unfold readc
        rw [htyped _ hlt, List.getElem?_eq_getElem hlt]
        exact Tracked.store_byte_self
      have hne : (readc input inputchar s).mem inputchar ≠ NL := by
        rw [hbyte]
        intro heq
        exact hnl (heq ▸ List.getElem_mem hlt)
      obtain ⟨s', hagain, hcalls', -⟩ := readcTurn_again hne
      exact Or.inr ⟨s', hagain, by omega, by omega⟩
    · have hbyte : (readc input inputchar s).mem inputchar = NL := by
        unfold readc
        rw [heq, hend]
        exact Tracked.store_byte_self
      exact Or.inl ⟨_, readcTurn_newline hbyte, trivial⟩
  have hstart : (⟨⟨m, []⟩, 0, buf, 0⟩ : Reading).calls ≤ typed.length := Nat.zero_le _
  obtain ⟨t, ht, -⟩ := loop_total _ _ hturn hstart (Nat.lt_succ_self _)
  exact ⟨t, ht⟩

/-- INTERNAL: without a newline the loop does not end. -/
theorem reads_never (hnl : NL ∉ stream) (hempty : stream = [] → m inputchar ≠ NL) (fuel : ℕ) :
    reads fuel (fun i => stream[i]?) inputchar m buf rsi = none := by
  apply loop_never fun s => stream.length ≤ s.calls → s.store.mem inputchar ≠ NL
  · intro s hs
    have hne : (readc (fun i => stream[i]?) inputchar s).mem inputchar ≠ NL := by
      unfold readc
      dsimp only
      by_cases hlt : s.calls < stream.length
      · rw [List.getElem?_eq_getElem hlt]
        dsimp only
        rw [Tracked.store_byte_self]
        intro heq
        exact hnl (heq ▸ List.getElem_mem hlt)
      · rw [List.getElem?_eq_none (Nat.le_of_not_lt hlt)]
        exact hs (Nat.le_of_not_lt hlt)
    obtain ⟨s', hagain, -, hbyte⟩ := readcTurn_again hne
    exact ⟨s', hagain, fun _ => hbyte ▸ hne⟩
  · intro hlen
    exact hempty (List.eq_nil_of_length_eq_zero (Nat.eq_zero_of_le_zero hlen))

end Streams

/-- **When `reads` returns.** On a finite input it returns exactly when there is a newline, or
when the input is empty and `.inputchar` holds one already. -/
theorem reads_returns_iff (stream : List UInt8) (inputchar : ℕ) (m : Mem) (buf : ℕ)
    (rsi : BitVec 64) :
    (∃ fuel t, reads fuel (fun i => stream[i]?) inputchar m buf rsi = some t) ↔
      NL ∈ stream ∨ stream = [] ∧ m inputchar = NL := by
  constructor
  · rintro ⟨fuel, t, ht⟩
    by_contra hnot
    rw [not_or, not_and] at hnot
    rw [reads_never hnot.1 hnot.2] at ht
    exact Option.some_ne_none t ht.symm
  · rintro (hmem | ⟨rfl, hbyte⟩)
    · obtain ⟨typed, rest, rfl, hnl⟩ := List.eq_append_cons_of_mem hmem
      have hend : (typed ++ NL :: rest)[typed.length]? = some NL := by
        rw [List.getElem?_append_right (Nat.le_refl _), Nat.sub_self]
        rfl
      exact ⟨_, reads_ends (fun i hi => List.getElem?_append_left hi) hend hnl⟩
    · exact ⟨1, _, loop_leave (readcTurn_newline hbyte)⟩

/-- A letter and no newline: the loop looks at the letter again and again. -/
theorem reads_never_returns :
    ¬∃ fuel t, reads fuel (fun i => [97][i]?) 9 (fun _ => 0) 0 2 = some t := by
  rintro ⟨fuel, t, ht⟩
  rw [reads_never (by decide) (fun h => absurd h (List.cons_ne_nil _ _))] at ht
  exact Option.some_ne_none t ht.symm

end UbuntuProjects.Console
