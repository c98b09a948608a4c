import UbuntuProjects.Model.ErrFuncs

/-!
# The buffer of the reporters

`vsnprintf` and `snprintf` keep to the MAXLINE bytes of `buf` and cut the text to
MAXLINE-1 bytes in front of the NUL; `strcat` then adds the newline without a bound
(`strcat(buf, "\n")`, err_funcs.c:12). A text that was cut, or that just fills the array,
has its new NUL written behind the array.
-/

set_option autoImplicit false

namespace UbuntuProjects.ErrFuncs

open Memory

/-- The line that is meant to be reported, without its newline. -/
def reported (sep : CString) (errnoflag : ℤ) (message : List UInt8) (error : CString) :
    CString :=
  if errnoflag ≠ 0 then (CString.ofBytes message).append (sep.append error)
  else CString.ofBytes message

/-! ## The two bounded writers -/

/-- `buf` holds the string `s`, and everything written so far was in `buf`. -/
structure Formatted (buf : Tracked) (s : CString) : Prop where
  holds : HoldsString buf.mem 0 s
  lt : s.length < MAXLINE
  inBounds : ∀ i ∈ buf.written, i < MAXLINE

variable {buf : Tracked} {s : CString}

/-- INTERNAL: behind a string that fits, `snprintf` adds what fits of the text. -/
theorem snprintf_formatted (bs : List UInt8) (hread : read buf.mem 0 s.length = s.bytes)
    (hlt : s.length < MAXLINE) (hin : ∀ i ∈ buf.written, i < MAXLINE) :
    Formatted (snprintf buf s.length (MAXLINE - s.length) bs)
      (s.append ((CString.ofBytes bs).take (MAXLINE - 1 - s.length))) := by
  have hsize : MAXLINE - s.length ≠ 0 := by omega
  unfold snprintf
  rw [if_neg hsize]
  constructor
  · have h := holdsString_write (bs.take (MAXLINE - s.length - 1)) hread
    rw [Nat.zero_add, CString.ofBytes_take, Nat.sub_right_comm] at h
    rw [Nat.sub_right_comm]
    exact h
  · rw [CString.length_append, CString.length_take]
    omega
  · intro i hi
    rcases List.mem_append.mp hi with hold | hnew
    · exact hin i hold
    · have hrange := List.mem_range'_1.mp hnew
      rw [List.length_append, List.length_take, List.length_singleton] at hrange
      omega

/-- INTERNAL: `vsnprintf` formats as much of the message as fits. -/
theorem vsnprintf_formatted (message : List UInt8) (hin : ∀ i ∈ buf.written, i < MAXLINE) :
    Formatted (snprintf buf 0 MAXLINE message)
      ((CString.ofBytes message).take (MAXLINE - 1)) :=
  snprintf_formatted (s := ⟨[], by simp⟩) message rfl (by decide) hin

/-- INTERNAL: `strcat` of the newline writes two bytes behind the string. -/
theorem strcat_newline (h : Formatted buf s) :
    strcat buf 0 MAXLINE newline = some (buf.store s.length [10, 0]) := by
  unfold strcat
  rw [h.holds.strlen_eq, if_pos h.lt]
  show some (buf.store (0 + s.length) [10, 0]) = _
  rw [Nat.zero_add]

/-! ## The whole report -/

/-- INTERNAL: the string in front of the newline is the reported line, cut to what fits. -/
theorem doit_eq (sep : CString) (errnoflag : ℤ) (message : List UInt8) (error : CString)
    (hin : ∀ i ∈ buf.written, i < MAXLINE) :
    ∃ b, Formatted b ((reported sep errnoflag message error).take (MAXLINE - 1)) ∧
      doit sep errnoflag message error buf =
        (strcat b 0 MAXLINE newline).map fun buf => ⟨buf, readString buf.mem⟩ := by
  have hmsg := vsnprintf_formatted message hin
  have hm : ((CString.ofBytes message).take (MAXLINE - 1)).length ≤ MAXLINE - 1 := by
    rw [CString.length_take]
    exact Nat.min_le_left _ _
  unfold reported doit
  by_cases hflag : errnoflag ≠ 0
  · have herr := snprintf_formatted (sep.append error).bytes hmsg.holds.bytes hmsg.lt
      hmsg.inBounds
    rw [CString.ofBytes_bytes, CString.append_take _ _ _ hm,
      CString.take_append_take] at herr
    rw [if_pos hflag, if_pos hflag, hmsg.holds.strlen_eq, if_pos hmsg.lt]
    refine ⟨_, herr, ?_⟩
    simp only [Option.bind_eq_bind, Option.bind_some, Option.pure_def, Option.map_eq_bind]
    rfl
  · rw [if_neg hflag, if_neg hflag]
    refine ⟨_, hmsg, ?_⟩
    simp only [Option.bind_eq_bind, Option.bind_some, Option.pure_def, Option.map_eq_bind]
    rfl

/-- INTERNAL: the newline and its NUL go behind what fits of the line. -/
theorem doit_writes (sep : CString) (errnoflag : ℤ) (message : List UInt8) (error : CString)
    (m : Mem) :
    ∃ b r, doit sep errnoflag message error ⟨m, []⟩ = some r ∧
      Formatted b ((reported sep errnoflag message error).take (MAXLINE - 1)) ∧
      r.buf = b.store (min (MAXLINE - 1) (reported sep errnoflag message error).length)
        [10, 0] ∧
      r.out = readString r.buf.mem := by
  have hin : ∀ i ∈ (⟨m, []⟩ : Tracked).written, i < MAXLINE :=
    fun i hi => absurd hi List.not_mem_nil
  obtain ⟨b, hb, hdoit⟩ := doit_eq sep errnoflag message error hin
  rw [strcat_newline hb, Option.map_some, CString.length_take] at hdoit
  refine ⟨b, _, hdoit, hb, ?_, ?_⟩
  · rfl
  · dsimp only

/-- INTERNAL: the writes keep to `buf` when the newline and its NUL do. -/
theorem inBounds_iff_of_formatted {b : Tracked} (h : Formatted b s) (n : ℕ) :
    (∀ i ∈ (b.store n [10, 0]).written, i < MAXLINE) ↔ n + 2 ≤ MAXLINE := by
  show (∀ i ∈ b.written ++ List.range' n 2, i < MAXLINE) ↔ n + 2 ≤ MAXLINE
  constructor
  · intro hall
    have hnul : n + 1 ∈ b.written ++ List.range' n 2 :=
      List.mem_append_right _ (List.mem_range'_1.mpr ⟨by omega, by omega⟩)
    exact hall _ hnul
  · intro hn i hi
    rcases List.mem_append.mp hi with hold | hnew
    · exact h.inBounds i hold
    · have hrange := List.mem_range'_1.mp hnew
      omega

/-- **Where the bound fails.** A report is written inside `buf` exactly when the line, its
newline and its NUL fit together. -/
theorem doit_inBounds_iff (sep : CString) (errnoflag : ℤ) (message : List UInt8)
    (error : CString) (m : Mem) :
    ∃ r, doit sep errnoflag message error ⟨m, []⟩ = some r ∧
      ((∀ i ∈ r.buf.written, i < MAXLINE) ↔
        (reported sep errnoflag message error).length + 2 ≤ MAXLINE) := by
  obtain ⟨b, r, hdoit, hb, hbuf, -⟩ := doit_writes sep errnoflag message error m
  refine ⟨r, hdoit, ?_⟩
  rw [hbuf, inBounds_iff_of_formatted hb]
  have hmax : MAXLINE = 4096 := rfl
  omega

/-- **What is reported.** A line that fits with its newline is handed on whole; of any
other line the reader finds no NUL in `buf`. -/
theorem doit_out (sep : CString) (errnoflag : ℤ) (message : List UInt8) (error : CString)
    (m : Mem) :
    ∃ r, doit sep errnoflag message error ⟨m, []⟩ = some r ∧
      r.out = if (reported sep errnoflag message error).length + 2 ≤ MAXLINE then
        some ((reported sep errnoflag message error).bytes ++ [10]) else none := by
  obtain ⟨b, r, hdoit, hb, hbuf, hout⟩ := doit_writes sep errnoflag message error m
  refine ⟨r, hdoit, ?_⟩
  have hnew := holdsString_write newline.bytes hb.holds.bytes
  rw [CString.ofBytes_bytes, Nat.zero_add, CString.length_take] at hnew
  have hmem : r.buf.mem = write b.mem
      (min (MAXLINE - 1) (reported sep errnoflag message error).length)
      (newline.bytes ++ [0]) := by
    rw [hbuf]
    rfl
  have hmax : MAXLINE = 4096 := rfl
  have hone : newline.length = 1 := rfl
  have hlen := CString.length_append
    ((reported sep errnoflag message error).take (MAXLINE - 1)) newline
  rw [CString.length_take] at hlen
  rw [hout, hmem]
  unfold readString
  rw [hnew.strlen_eq]
  by_cases hfit : (reported sep errnoflag message error).length + 2 ≤ MAXLINE
  · have hwhole : (reported sep errnoflag message error).bytes.take (MAXLINE - 1) =
        (reported sep errnoflag message error).bytes := by
      apply List.take_of_length_le
      show (reported sep errnoflag message error).length ≤ _
      omega
    rw [if_pos hfit, if_pos (by omega), Option.map_some, hnew.bytes]
    show some ((reported sep errnoflag message error).bytes.take _ ++ [10]) = _
    rw [hwhole]
  · rw [if_neg hfit, if_neg (by omega), Option.map_none]

/-- INTERNAL: the length of the line from the lengths of its parts. -/
theorem length_reported (sep : CString) (errnoflag : ℤ) (message : List UInt8)
    (error : CString) :
    (reported sep errnoflag message error).length = (CString.ofBytes message).length +
      if errnoflag ≠ 0 then sep.length + error.length else 0 := by
  unfold reported
  split
  · rw [CString.length_append, CString.length_append]
  · rfl

/-- **Buffer bounds of the reporters.** Everything `err_doit` and `log_doit` write to `buf`
is inside it exactly when the message, up to its first NUL, and the separator and error
text behind it are at most MAXLINE-2 bytes.
SRCLINE: err_funcs.c:7-16, log_funcs.c:8-18 -/
theorem reporters_inBounds_iff (errnoflag : ℤ) (message : List UInt8) (error : CString)
    (m : Mem) :
    (∃ r, err_doit errnoflag message error ⟨m, []⟩ = some r ∧
      ((∀ i ∈ r.buf.written, i < MAXLINE) ↔
        (CString.ofBytes message).length +
          (if errnoflag ≠ 0 then 2 + error.length else 0) + 2 ≤ MAXLINE)) ∧
    (∃ r, log_doit errnoflag message error ⟨m, []⟩ = some r ∧
      ((∀ i ∈ r.buf.written, i < MAXLINE) ↔
        (CString.ofBytes message).length +
          (if errnoflag ≠ 0 then 1 + error.length else 0) + 2 ≤ MAXLINE)) := by
  constructor
  · obtain ⟨r, hr, hiff⟩ := doit_inBounds_iff colonSpace errnoflag message error m
    rw [length_reported] at hiff
    exact ⟨r, hr, hiff⟩
  · obtain ⟨r, hr, hiff⟩ := doit_inBounds_iff colon errnoflag message error m
    rw [length_reported] at hiff
    exact ⟨r, hr, hiff⟩

/-- A message of MAXLINE-1 bytes just fills `buf`: the NUL of `strcat` goes behind it. -/
theorem reporters_overflow :
    ¬∀ (errnoflag : ℤ) (message : List UInt8) (error : CString) (m : Mem),
      (∃ r, err_doit errnoflag message error ⟨m, []⟩ = some r ∧
        ∀ i ∈ r.buf.written, i < MAXLINE) ∧
      (∃ r, log_doit errnoflag message error ⟨m, []⟩ = some r ∧
        ∀ i ∈ r.buf.written, i < MAXLINE) := by
  intro hall
  obtain ⟨⟨r, hr, hin⟩, -⟩ := hall 0 (List.replicate 4095 120) ⟨[], by simp⟩ fun _ => 0
  obtain ⟨r', hr', hiff⟩ := doit_inBounds_iff colonSpace 0 (List.replicate 4095 120)
    ⟨[], by simp⟩ fun _ => 0
  have heq : r' = r := Option.some.inj (hr'.symm.trans hr)
  rw [heq, length_reported] at hiff
  have hlen : (CString.ofBytes (List.replicate 4095 120)).length = 4095 := by
    have hwhole := CString.ofBytes_bytes
      ⟨List.replicate 4095 120, fun h0 => absurd (List.eq_of_mem_replicate h0) (by decide)⟩
    have h := congrArg CString.length hwhole
    exact h.trans List.length_replicate
  have hfit := hiff.mp hin
  rw [hlen] at hfit
  exact absurd hfit (by decide)

/-- Each of the reporting functions keeps to `buf` under the condition of its reporter. -/
theorem call_inBounds_iff (message : List UInt8) (error : CString) (m : Mem) :
    ∀ f ∈ [err_ret, err_sys, err_exit, err_dump, err_msg, err_quit, log_ret, log_sys,
        log_msg, log_quit],
      ∃ r sep, (sep = colonSpace ∨ sep = colon) ∧ f.call message error ⟨m, []⟩ = some r ∧
        ((∀ i ∈ r.buf.written, i < MAXLINE) ↔
          (reported sep f.errnoflag message error).length + 2 ≤ MAXLINE) := by
  intro f hf
  have hreporter : f.reporter = err_doit ∨ f.reporter = log_doit := by
    simp only [List.mem_cons, List.not_mem_nil, or_false] at hf
    rcases hf with rfl | rfl | rfl | rfl | rfl | rfl | rfl | rfl | rfl | rfl
    exacts [.inl rfl, .inl rfl, .inl rfl, .inl rfl, .inl rfl, .inl rfl,
      .inr rfl, .inr rfl, .inr rfl, .inr rfl]
  unfold Reporting.call
  rcases hreporter with h | h
  · obtain ⟨r, hr, hiff⟩ := doit_inBounds_iff colonSpace f.errnoflag message error m
    rw [h]
    exact ⟨r, colonSpace, .inl rfl, hr, hiff⟩
  · obtain ⟨r, hr, hiff⟩ := doit_inBounds_iff colon f.errnoflag message error m
    rw [h]
    exact ⟨r, colon, .inr rfl, hr, hiff⟩

end UbuntuProjects.ErrFuncs
