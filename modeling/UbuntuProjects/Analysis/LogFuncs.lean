import UbuntuProjects.Analysis.ErrFuncs

/-!
# What the log functions emit

`err_doit` writes its line with `fputs` (err_funcs.c:14), `log_doit` hands it to `syslog`
as a format (log_funcs.c:17), where it is expanded once more.
-/

set_option autoImplicit false

namespace UbuntuProjects.ErrFuncs

open Memory

variable {f : Reporting} {s : CString}

/-- INTERNAL: a message that fits is read back whole from `buf`. -/
theorem format_percentS (hf : f ∈ [err_msg, err_quit, log_msg, log_quit])
    (hlen : s.length < MAXLINE - 2) (error : CString) (m : Mem) :
    ∃ r, f.format percentS [s] error ⟨m, []⟩ = some r ∧ r.out = some (s.bytes ++ [10]) := by
  unfold Reporting.format
  rw [expand_percentS]
  show ∃ r, f.call s.bytes error ⟨m, []⟩ = some r ∧ _
  have hsep : ∃ sep, f.call s.bytes error = doit sep 0 s.bytes error := by
    simp only [List.mem_cons, List.not_mem_nil, or_false] at hf
    rcases hf with rfl | rfl | rfl | rfl
    exacts [⟨colonSpace, rfl⟩, ⟨colonSpace, rfl⟩, ⟨colon, rfl⟩, ⟨colon, rfl⟩]
  obtain ⟨sep, hsep⟩ := hsep
  obtain ⟨r, hr, hout⟩ := doit_out sep 0 s.bytes error m
  have hline : reported sep 0 s.bytes error = s := CString.ofBytes_bytes s
  have hfit : s.length + 2 ≤ MAXLINE := by omega
  rw [hline, if_pos hfit] at hout
  refine ⟨r, ?_, hout⟩
  rw [hsep]
  exact hr

/-- **The sibling path.** `err_msg` and `err_quit` write the message as it was given.
SRCLINE: err_funcs.c:7-16 -/
theorem err_exact (s : CString) (hlen : s.length < MAXLINE - 2) (error : CString) (m : Mem) :
    ∀ f ∈ [err_msg, err_quit],
      (f.format percentS [s] error ⟨m, []⟩).bind Report.out = some (s.bytes ++ [10]) := by
  intro f hf
  have hf' : f ∈ [err_msg, err_quit] ++ [log_msg, log_quit] := List.mem_append_left _ hf
  obtain ⟨r, hr, hout⟩ := format_percentS hf' hlen error m
  rw [hr, Option.bind_some, hout]

/-- INTERNAL: the log functions emit the expansion of the message and its newline. -/
theorem emits_eq_expand (hf : f ∈ [log_msg, log_quit]) (hlen : s.length < MAXLINE - 2)
    (error errorThen : CString) (m : Mem) :
    f.emits percentS [s] error errorThen ⟨m, []⟩ = expand errorThen (s.bytes ++ [10]) [] := by
  have hf' : f ∈ [err_msg, err_quit] ++ [log_msg, log_quit] := List.mem_append_right _ hf
  obtain ⟨r, hr, hout⟩ := format_percentS hf' hlen error m
  unfold Reporting.emits
  rw [hr]
  show syslog errorThen r = _
  unfold syslog
  rw [hout]
  rfl

/-- **What is logged.** `log_msg` and `log_quit` emit the given string, whatever `errno`
is, exactly when the string has no percent sign.
SRCLINE: log_funcs.c:8-18, log_funcs.c:34-47 -/
theorem log_exact_iff (s : CString) (hlen : s.length < MAXLINE - 2) :
    (∀ f ∈ [log_msg, log_quit], ∀ (error errorThen : CString) (m : Mem),
      f.emits percentS [s] error errorThen ⟨m, []⟩ = some (s.bytes ++ [10])) ↔
        percent ∉ s.bytes := by
  have hline : percent ∉ s.bytes ++ [10] ↔ percent ∉ s.bytes := by
    rw [List.mem_append, not_or]
    exact and_iff_left (by decide)
  constructor
  · intro h
    -- an empty error text has no percent sign of its own
    have hempty : percent ∉ (⟨[], by simp⟩ : CString).bytes := List.not_mem_nil
    have hlog := h log_msg (by simp) ⟨[], by simp⟩ ⟨[], by simp⟩ fun _ => 0
    rw [emits_eq_expand (by simp) hlen, expand_eq_self_iff hempty] at hlog
    exact hline.mp hlog
  · intro h f hf error errorThen m
    rw [emits_eq_expand hf hlen]
    exact expand_eq_self [] _ (hline.mpr h)

/-- `"disk full"` -/
def diskFull : CString := ⟨[100, 105, 115, 107, 32, 102, 117, 108, 108], by decide⟩

/-- `log_msg("%s", "disk full")`. -/
theorem log_exact_iff_plain :
    percent ∉ diskFull.bytes ∧
      ∀ f ∈ [log_msg, log_quit], ∀ (error errorThen : CString) (m : Mem),
        f.emits percentS [diskFull] error errorThen ⟨m, []⟩ = some (diskFull.bytes ++ [10]) :=
  ⟨by decide, (log_exact_iff diskFull (by decide)).mpr (by decide)⟩

/-- `log_msg("%s", "100%%")` logs only one percent sign. -/
theorem log_msg_percent :
    ¬∀ s : CString, s.length < MAXLINE - 2 →
      ∀ f ∈ [log_msg, log_quit], ∀ (error errorThen : CString) (m : Mem),
        f.emits percentS [s] error errorThen ⟨m, []⟩ = some (s.bytes ++ [10]) := by
  intro hall
  have h := hall ⟨[49, 48, 48, percent, percent], by decide⟩ (by decide) log_msg (by simp)
    ⟨[], by simp⟩ ⟨[], by simp⟩ fun _ => 0
  rw [emits_eq_expand (by simp) (by decide)] at h
  have hone : expand ⟨[], by simp⟩ [49, 48, 48, percent, percent, 10] [] =
      some [49, 48, 48, percent, 10] := by decide
  exact absurd (hone.symm.trans h) (by decide)

end UbuntuProjects.ErrFuncs
