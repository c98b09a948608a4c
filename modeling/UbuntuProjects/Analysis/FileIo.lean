import UbuntuProjects.Model.FileIo

/-!
# Descriptors and pointers of `fileio.asm`

A helper uses the descriptor that `main` gives it, and what `main` gives is whatever the
opening helper left in `rax`: the descriptor, or what `printString` returned for the message
about the error. The events of a run only grow, so one bad use cannot be made good; each block
is good exactly when its file could be opened or the number in its place is that of a
descriptor still open.
-/

set_option autoImplicit false

namespace UbuntuProjects.FileIo

open Memory Control

/-! ## What is right -/

/-- What an event does with a descriptor, the newest first. -/
def Event.accesses : Event → List (Access Value)
  | .creat rax => if 0 ≤ rax then [.acquire (.number rax)] else []
  | .openat rax => if 0 ≤ rax then [.acquire (.number rax)] else []
  | .write rdi _ _ _ => [.use rdi]
  | .lseek rdi _ _ _ => [.use rdi]
  | .read rdi _ _ => [.use rdi]
  | .close rdi rax => if 0 ≤ rax then [.release rdi, .use rdi] else [.use rdi]
  | .unlink _ => []
  | .print _ _ => []
  | .printString _ _ => []

def accesses (events : List Event) : List (Access Value) := events.flatMap Event.accesses

/-- The address of a string, or of the buffer with a NUL in it. -/
def ValidString (buffer : Mem) : Value → Prop
  | .number _ => False
  | .data _ => True
  | .buffer => ∃ i, i ≤ bufferlen ∧ buffer i = 0

/-- `main` calls `printString` with a string. -/
def Event.Valid : Event → Prop
  | .printString rdi buffer => ValidString buffer rdi
  | _ => True

/-- Only descriptors that are open are used, and only strings are printed. -/
structure Sound (events : List Event) : Prop where
  descriptors : Proper (accesses events)
  pointers : ∀ e ∈ events, e.Valid

section Soundness

variable {events events' : List Event} {e : Event} {d : Value}

theorem Sound.of_suffix (hsuffix : events <:+ events') (h : Sound events') : Sound events := by
  obtain ⟨newer, rfl⟩ := hsuffix
  constructor
  · apply h.descriptors.of_suffix
    unfold accesses
    rw [List.flatMap_append]
    exact List.suffix_append _ _
  · exact fun e he => h.pointers e (List.mem_append_right newer he)

/-- INTERNAL: one more event. -/
theorem sound_cons :
    Sound (e :: events) ↔
      e.Valid ∧ Proper (e.accesses ++ accesses events) ∧ ∀ e' ∈ events, e'.Valid := by
  constructor
  · rintro ⟨hproper, hvalid⟩
    exact ⟨hvalid e List.mem_cons_self, hproper, fun e' he' =>
      hvalid e' (List.mem_cons_of_mem e he')⟩
  · rintro ⟨he, hproper, hvalid⟩
    refine ⟨hproper, ?_⟩
    intro e' he'
    rcases List.mem_cons.mp he' with rfl | he'
    · exact he
    · exact hvalid e' he'

/-- INTERNAL: an event that does nothing with descriptors. -/
theorem sound_idle (he : e.accesses = []) :
    Sound (e :: events) ↔ e.Valid ∧ Sound events := by
  rw [sound_cons, he, List.nil_append]
  exact ⟨fun h => ⟨h.1, h.2.1, h.2.2⟩, fun h => ⟨h.1, h.2.1, h.2.2⟩⟩

/-- INTERNAL: a call with a descriptor. -/
theorem sound_use (hvalid : e.Valid) (he : e.accesses = [.use d]) :
    Sound (e :: events) ↔ Held d (accesses events) ∧ Sound events := by
  rw [sound_cons, he, List.singleton_append, proper_use]
  exact ⟨fun h => ⟨h.2.1.1, h.2.1.2, h.2.2⟩, fun h => ⟨hvalid, ⟨h.1, h.2.1⟩, h.2.2⟩⟩

/-- INTERNAL: a call that returns a descriptor, or fails. -/
theorem sound_acquire {rax : ℤ} (hvalid : e.Valid)
    (he : e.accesses = if 0 ≤ rax then [.acquire (.number rax)] else []) :
    Sound (e :: events) ↔ Sound events := by
  by_cases hrax : 0 ≤ rax
  · rw [if_pos hrax] at he
    rw [sound_cons, he, List.singleton_append, proper_acquire]
    exact ⟨fun h => ⟨h.2.1, h.2.2⟩, fun h => ⟨hvalid, h.1, h.2⟩⟩
  · rw [if_neg hrax] at he
    rw [sound_idle he]
    exact and_iff_right hvalid

/-- INTERNAL: the closing of a descriptor. -/
theorem sound_close {rax : ℤ} :
    Sound (.close d rax :: events) ↔ Held d (accesses events) ∧ Sound events := by
  by_cases hrax : 0 ≤ rax
  · have he : (Event.close d rax).accesses = [.release d, .use d] := if_pos hrax
    rw [sound_cons, he, List.cons_append, List.singleton_append, proper_release, proper_use]
    exact ⟨fun h => ⟨h.2.1.1, h.2.1.2, h.2.2⟩, fun h => ⟨trivial, ⟨h.1, h.2.1⟩, h.2.2⟩⟩
  · exact sound_use trivial (if_neg hrax)

end Soundness

/-! ## The helpers -/

section Helpers

variable {res : Results} {s : State} {result : ℤ} {rax rdi : Value}

/-- INTERNAL: there is no memory. -/
theorem printString_fault (h : strLoop s.buffer rdi = none) :
    printString result rax rdi s = .error s := by
  unfold printString
  rw [bind_of_ok (rfl : (get : Run State State) s = .ok (s, s)), h]
  rfl

/-- INTERNAL: an empty string is not printed. -/
theorem printString_empty (h : strLoop s.buffer rdi = some 0) :
    printString result rax rdi s = .ok (rax, s) := by
  unfold printString
  rw [bind_of_ok (rfl : (get : Run State State) s = .ok (s, s)), h]
  rfl

/-- INTERNAL: `rax` is what `write` returns. -/
theorem printString_prints {n : ℕ} (h : strLoop s.buffer rdi = some (n + 1)) :
    printString result rax rdi s =
      .ok (.number result, { s with events := .print (n + 1) result :: s.events }) := by
  unfold printString
  rw [bind_of_ok (rfl : (get : Run State State) s = .ok (s, s)), h]
  rfl

/-- INTERNAL: a message is printed. -/
theorem printString_message {message : CString} (h : 0 < message.length) :
    ∃ n, printString result rax (.data message) s =
      .ok (.number result, { s with events := .print n result :: s.events }) := by
  obtain ⟨n, hn⟩ := Nat.exists_eq_add_of_le' h
  exact ⟨n + 1, printString_prints (congrArg some hn)⟩

/-- The number that an opening helper leaves for `FD`. -/
def descriptor (res : Results) (i : ℕ) : ℤ :=
  if 0 ≤ res.call i then res.call i else res.message i

variable {success error : CString}

/-- INTERNAL: a helper that reports. -/
theorem reporting_run (res : Results) (event : ℤ → Event) (s : State)
    (hsuccess : 0 < success.length) (herror : 0 < error.length) :
    ∃ n, reporting res event success error s =
      .ok (.number (res.message s.helpers), ⟨s.FD, s.buffer, s.helpers + 1,
        .print n (res.message s.helpers) :: event (res.call s.helpers) :: s.events⟩) := by
  unfold reporting
  rw [bind_of_ok (rfl : (get : Run State State) s = .ok (s, s)),
    bind_of_ok (rfl : log (event (res.call s.helpers)) s = .ok ((), _))]
  by_cases hrax : res.call s.helpers < 0
  · rw [if_pos hrax]
    obtain ⟨n, hn⟩ := printString_message herror
    rw [bind_of_ok hn]
    exact ⟨n, rfl⟩
  · rw [if_neg hrax]
    obtain ⟨n, hn⟩ := printString_message hsuccess
    rw [bind_of_ok hn]
    exact ⟨n, rfl⟩

/-- INTERNAL: a helper that opens. -/
theorem opening_run (res : Results) (event : ℤ → Event) (s : State)
    (hsuccess : 0 < success.length) (herror : 0 < error.length) :
    ∃ n, opening res event success error s =
      .ok (.number (descriptor res s.helpers), ⟨s.FD, s.buffer, s.helpers + 1,
        .print n (res.message s.helpers) :: event (res.call s.helpers) :: s.events⟩) := by
  unfold opening descriptor
  rw [bind_of_ok (rfl : (get : Run State State) s = .ok (s, s)),
    bind_of_ok (rfl : log (event (res.call s.helpers)) s = .ok ((), _))]
  by_cases hrax : res.call s.helpers < 0
  · rw [if_pos hrax, if_neg (Int.not_le.mpr hrax)]
    obtain ⟨n, hn⟩ := printString_message herror
    rw [bind_of_ok hn]
    exact ⟨n, rfl⟩
  · rw [if_neg hrax, if_pos (Int.not_lt.mp hrax)]
    obtain ⟨n, hn⟩ := printString_message hsuccess
    rw [bind_of_ok hn]
    exact ⟨n, rfl⟩

/-- INTERNAL: the buffer behind a read. -/
theorem readFile_reads (hrax : 0 ≤ res.call s.helpers) (rdi : Value) (rdx : ℕ) :
    ∃ n, readFile res rdi rdx s =
      .ok (.buffer, ⟨s.FD, fill s.buffer (res.bytes s.helpers) (res.call s.helpers).toNat,
        s.helpers + 1,
        .print n (res.message s.helpers) :: .read rdi rdx (res.call s.helpers) :: s.events⟩) := by
  obtain ⟨n, hn⟩ := printString_message (show 0 < success_rd.length by decide)
  unfold readFile
  rw [bind_of_ok (rfl : (get : Run State State) s = .ok (s, s)),
    bind_of_ok (rfl : log (.read rdi rdx (res.call s.helpers)) s = .ok ((), _)),
    if_neg (Int.not_lt.mpr hrax)]
  exact ⟨n, (bind_of_ok (by rfl)).trans (bind_of_ok hn)⟩

/-- INTERNAL: a read that fails. -/
theorem readFile_fails (hrax : res.call s.helpers < 0) (rdi : Value) (rdx : ℕ) :
    ∃ n, readFile res rdi rdx s =
      .ok (.number (res.message s.helpers), ⟨s.FD, s.buffer, s.helpers + 1,
        .print n (res.message s.helpers) :: .read rdi rdx (res.call s.helpers) :: s.events⟩) := by
  obtain ⟨n, hn⟩ := printString_message (show 0 < error_rd.length by decide)
  unfold readFile
  rw [bind_of_ok (rfl : (get : Run State State) s = .ok (s, s)),
    bind_of_ok (rfl : log (.read rdi rdx (res.call s.helpers)) s = .ok ((), _)), if_pos hrax,
    bind_of_ok hn]
  exact ⟨n, rfl⟩

/-- INTERNAL: the NUL behind the bytes read. -/
theorem fill_nul (buffer bytes : Mem) (n : ℕ) : fill buffer bytes n n = 0 := by
  unfold fill
  rw [if_neg (Nat.lt_irrefl n), if_pos rfl]

/-- What `readFile` returns in `rax`. -/
inductive Returned (res : Results) (i : ℕ) (buffer : Mem) : Value → Prop where
  | buffer (hcall : 0 ≤ res.call i) (hnul : ValidString buffer .buffer) :
      Returned res i buffer .buffer
  | failed (n : ℤ) (hcall : res.call i < 0) : Returned res i buffer (.number n)

/-- INTERNAL: the read in either case. -/
theorem readFile_run (hcount : res.call s.helpers ≤ bufferlen) (rdi : Value) (rdx : ℕ) :
    ∃ n rax buffer, readFile res rdi rdx s =
      .ok (rax, ⟨s.FD, buffer, s.helpers + 1,
        .print n (res.message s.helpers) :: .read rdi rdx (res.call s.helpers) :: s.events⟩) ∧
      Returned res s.helpers buffer rax := by
  by_cases hcall : 0 ≤ res.call s.helpers
  · obtain ⟨n, hrun⟩ := readFile_reads hcall rdi rdx
    exact ⟨n, _, _, hrun, .buffer hcall ⟨_, by omega, fill_nul _ _ (res.call s.helpers).toNat⟩⟩
  · have hfail : res.call s.helpers < 0 := Int.not_le.mp hcall
    obtain ⟨n, hrun⟩ := readFile_fails hfail rdi rdx
    exact ⟨n, _, _, hrun, .failed _ hfail⟩

end Helpers

/-! ## Events only grow -/

section Growing

variable {res : Results}

/-- INTERNAL: the addition of an event. -/
theorem grows_log (e : Event) : Grows State.events (log e) :=
  grows_modify _ fun s => List.suffix_cons e s.events

/-- INTERNAL: the other changes of the state. -/
theorem grows_storeFD (rax : Value) : Grows State.events (storeFD rax) :=
  grows_modify _ fun _ => List.suffix_rfl

theorem grows_ret (rax : Value) : Grows State.events (ret rax) :=
  (grows_modify _ fun _ => List.suffix_rfl).bind fun _ => grows_pure rax

theorem grows_printString (result : ℤ) (rax rdi : Value) :
    Grows State.events (printString result rax rdi) := by
  intro s
  cases h : strLoop s.buffer rdi with
  | none =>
    rw [final_of_error (printString_fault h)]
  | some n =>
    cases n with
    | zero => rw [final_of_ok (printString_empty h)]
    | succ n =>
      rw [final_of_ok (printString_prints h)]
      exact List.suffix_cons _ _

/-- INTERNAL: a helper's system call, and what follows. -/
theorem grows_call {event : State → Event} {rest : State → Run State Value}
    (h : ∀ s, Grows State.events (rest s)) :
    Grows State.events (do
      let s ← get
      log (event s)
      rest s) :=
  grows_get.bind fun s => (grows_log (event s)).bind fun _ => h s

theorem grows_reporting (event : ℤ → Event) (success error : CString) :
    Grows State.events (reporting res event success error) := by
  apply grows_call
  intro s
  split
  · exact (grows_printString _ _ _).bind grows_ret
  · exact (grows_printString _ _ _).bind grows_ret

theorem grows_opening (event : ℤ → Event) (success error : CString) :
    Grows State.events (opening res event success error) := by
  apply grows_call
  intro s
  split
  · exact (grows_printString _ _ _).bind grows_ret
  · exact (grows_printString _ _ _).bind fun _ => grows_ret _

theorem grows_readFile (rdi : Value) (rdx : ℕ) : Grows State.events (readFile res rdi rdx) := by
  apply grows_call
  intro s
  split
  · exact (grows_printString _ _ _).bind grows_ret
  · have hfill : Grows State.events (modify fun s' : State =>
        { s' with buffer := fill s'.buffer (res.bytes s.helpers) (res.call s.helpers).toNat }) :=
      grows_modify _ fun _ => List.suffix_rfl
    exact hfill.bind fun _ => (grows_printString _ _ _).bind fun _ => grows_ret _

theorem grows_withFD {helper : Value → Run State Value}
    (h : ∀ rdi, Grows State.events (helper rdi)) : Grows State.events (withFD helper) :=
  grows_get.bind fun _ => h _

theorem grows_printRead (rax : Value) : Grows State.events (printRead res rax) :=
  grows_call fun _ => grows_printString _ _ _

end Growing

/-! ## The descriptors that are open -/

/-- The descriptors open behind an opening helper. -/
def opened (res : Results) (i : ℕ) (held : List ℤ) : List ℤ :=
  if 0 ≤ res.call i then res.call i :: held else held

/-- The descriptors open behind the closing of `fd`. -/
def closed (res : Results) (i : ℕ) (fd : ℤ) (held : List ℤ) : List ℤ :=
  if 0 ≤ res.call i then held.filter fun d => d ≠ fd else held

/-- In front of helper `i`, with `fd` in `FD` and the descriptors `held` open. -/
structure At (i : ℕ) (fd : ℤ) (held : List ℤ) (s : State) : Prop where
  FD : s.FD = .number fd
  helpers : s.helpers = i
  sound : Sound s.events
  held : ∀ d, Held (.number d) (accesses s.events) ↔ d ∈ held

/-- Programs that are good exactly under a condition. -/
abbrev Good (P : State → Prop) (c : Prop) (x : Run State Value) (Q : Value → State → Prop) :
    Prop :=
  Exact State.events Sound P c x Q

section Blocks

variable {res : Results} {i : ℕ} {fd : ℤ} {held : List ℤ} {success error : CString}

/-- INTERNAL: what is left for `FD` is an open descriptor. -/
theorem descriptor_mem_opened :
    descriptor res i ∈ opened res i held ↔ 0 ≤ res.call i ∨ res.message i ∈ held := by
  unfold descriptor opened
  by_cases hcall : 0 ≤ res.call i
  · rw [if_pos hcall, if_pos hcall]
    exact iff_of_true List.mem_cons_self (Or.inl hcall)
  · rw [if_neg hcall, if_neg hcall]
    exact (or_iff_right hcall).symm

/-- INTERNAL: an opening helper. -/
theorem good_opening {event : ℤ → Event} (hsuccess : 0 < success.length)
    (herror : 0 < error.length) (hvalid : ∀ rax, (event rax).Valid)
    (hevent : ∀ rax, (event rax).accesses = if 0 ≤ rax then [.acquire (.number rax)] else []) :
    Good (At i fd held) True (opening res event success error) fun rax s =>
      rax = .number (descriptor res i) ∧ At (i + 1) fd (opened res i held) s := by
  apply Exact.always (grows_opening event success error)
  rintro s ⟨hFD, rfl, hsound, hheld⟩
  obtain ⟨n, hrun⟩ := opening_run res event s hsuccess herror
  refine ⟨_, _, hrun, rfl, hFD, rfl, ?_, ?_⟩
  · rw [sound_idle rfl, sound_acquire (hvalid _) (hevent _)]
    exact ⟨trivial, hsound⟩
  · intro d
    show Held _ ((event _).accesses ++ accesses s.events) ↔ _
    rw [hevent]
    unfold opened
    by_cases hcall : 0 ≤ res.call s.helpers
    · rw [if_pos hcall, if_pos hcall, List.singleton_append, held_acquire, hheld, List.mem_cons,
        Value.number.injEq, eq_comm]
    · rw [if_neg hcall, if_neg hcall, List.nil_append]
      exact hheld d

/-- INTERNAL: what is left goes to `FD`. -/
theorem good_storeFD (d : ℤ) (rax : Value) :
    Exact State.events Sound (fun s => rax = .number d ∧ At i fd held s) True (storeFD rax)
      fun _ s => At i d held s := by
  apply Exact.always (grows_storeFD rax)
  rintro s ⟨rfl, hs⟩
  exact ⟨_, _, rfl, rfl, hs.helpers, hs.sound, hs.held⟩

/-- INTERNAL: a helper that is given a descriptor; `held'` is what its call leaves open. -/
theorem good_reporting (event : Value → ℤ → Event) {held' : List ℤ}
    (hsuccess : 0 < success.length) (herror : 0 < error.length)
    (hsound : ∀ events rax, Sound (event (.number fd) rax :: events) ↔
      Held (.number fd) (accesses events) ∧ Sound events)
    (hleft : ∀ events, (∀ d, Held (.number d) (accesses events) ↔ d ∈ held) →
      ∀ d, Held (.number d) ((event (.number fd) (res.call i)).accesses ++ accesses events) ↔
        d ∈ held') :
    Good (At i fd held) (fd ∈ held)
      (withFD fun rdi => reporting res (event rdi) success error) fun _ s =>
        At (i + 1) fd held' s := by
  refine ⟨?_, ?_, grows_withFD fun rdi => grows_reporting (event rdi) success error⟩
  · rintro hfd s ⟨hFD, rfl, hgood, hheld⟩
    obtain ⟨n, hrun⟩ := reporting_run res (event s.FD) s hsuccess herror
    have hcall : withFD (fun rdi => reporting res (event rdi) success error) s = _ := hrun
    rw [hFD] at hcall
    refine ⟨_, _, hcall, rfl, rfl, ?_, ?_⟩
    · rw [sound_idle rfl, hsound]
      exact ⟨trivial, (hheld fd).mpr hfd, hgood⟩
    · exact hleft s.events hheld
  · rintro hfd s ⟨hFD, rfl, -, hheld⟩ hbad
    obtain ⟨n, hrun⟩ := reporting_run res (event s.FD) s hsuccess herror
    have hfinal : final (withFD fun rdi => reporting res (event rdi) success error) s = _ :=
      final_of_ok hrun
    rw [hfinal, hFD, sound_idle rfl, hsound] at hbad
    exact hfd ((hheld fd).mp hbad.2.1)

/-- INTERNAL: a helper that uses its descriptor and keeps it open. -/
theorem good_use {event : Value → ℤ → Event} (hsuccess : 0 < success.length)
    (herror : 0 < error.length) (hvalid : ∀ rdi rax, (event rdi rax).Valid)
    (hevent : ∀ rdi rax, (event rdi rax).accesses = [.use rdi]) :
    Good (At i fd held) (fd ∈ held)
      (withFD fun rdi => reporting res (event rdi) success error) fun _ s =>
        At (i + 1) fd held s := by
  apply good_reporting event hsuccess herror
  · intro events rax
    exact sound_use (hvalid _ rax) (hevent _ rax)
  · intro events hheld d
    rw [hevent, List.singleton_append, held_use]
    exact hheld d

/-- INTERNAL: the closing of the file. -/
theorem good_closeFile :
    Good (At i fd held) (fd ∈ held) (withFD (closeFile res)) fun _ s =>
      At (i + 1) fd (closed res i fd held) s := by
  apply good_reporting .close (by decide) (by decide)
  · intro events rax
    exact sound_close
  · intro events hheld d
    unfold closed Event.accesses
    dsimp only
    by_cases hcall : 0 ≤ res.call i
    · rw [if_pos hcall, if_pos hcall, List.cons_append, List.singleton_append, held_release,
        held_use, hheld, List.mem_filter, decide_eq_true_eq, ne_eq, Value.number.injEq,
        and_comm, eq_comm]
    · rw [if_neg hcall, if_neg hcall, List.singleton_append, held_use]
      exact hheld d

/-- INTERNAL: the read and its message in the record. -/
theorem sound_read {rdi : Value} {events : List Event} {n rdx : ℕ} {rax rax' : ℤ} :
    Sound (.print n rax :: .read rdi rdx rax' :: events) ↔
      Held rdi (accesses events) ∧ Sound events := by
  have hread : Sound (.read rdi rdx rax' :: events) ↔ Held rdi (accesses events) ∧ Sound events :=
    sound_use trivial rfl
  rw [sound_idle rfl, hread]
  exact and_iff_right trivial

/-- INTERNAL: the read. -/
theorem good_readFile (hcount : res.call i ≤ bufferlen) (rdx : ℕ) :
    Good (At i fd held) (fd ∈ held) (withFD fun rdi => readFile res rdi rdx) fun rax s =>
      At (i + 1) fd held s ∧ Returned res i s.buffer rax := by
  refine ⟨?_, ?_, grows_withFD fun rdi => grows_readFile rdi rdx⟩
  · rintro hfd s ⟨hFD, rfl, hgood, hheld⟩
    obtain ⟨n, rax, buffer, hrun, hreturned⟩ := readFile_run hcount s.FD rdx
    refine ⟨_, _, hrun, ⟨hFD, rfl, ?_, fun d => held_use.trans (hheld d)⟩, hreturned⟩
    rw [sound_read, hFD]
    exact ⟨(hheld fd).mpr hfd, hgood⟩
  · rintro hfd s ⟨hFD, rfl, -, hheld⟩ hbad
    obtain ⟨n, rax, buffer, hrun, -⟩ := readFile_run hcount s.FD rdx
    have hfinal : final (withFD fun rdi => readFile res rdi rdx) s = _ := final_of_ok hrun
    rw [hfinal, sound_read, hFD] at hbad
    exact hfd ((hheld fd).mp hbad.1)

/-- INTERNAL: the printing of what was read. -/
theorem good_printRead (rax : Value) :
    Exact State.events Sound (fun s => At (i + 1) fd held s ∧ Returned res i s.buffer rax)
      (0 ≤ res.call i) (printRead res rax) fun _ s => At (i + 1) fd held s := by
  refine ⟨?_, ?_, grows_printRead rax⟩
  · rintro hcall s ⟨⟨hFD, hhelpers, hsound, hheld⟩, hreturned⟩
    cases hreturned with
    | failed n hfail => exact absurd hcall (Int.not_le.mpr hfail)
    | buffer _ hnul =>
      have hprinted : Sound (.printString .buffer s.buffer :: s.events) :=
        (sound_idle rfl).mpr ⟨hnul, hsound⟩
      obtain ⟨j, hj, hzero⟩ := hnul
      have hfound : (strlen s.buffer 0 (bufferlen + 1)).isSome := by
        unfold strlen
        rw [List.find?_isSome]
        exact ⟨j, List.mem_range.mpr (Nat.lt_succ_of_le hj), by rw [Nat.zero_add]; simpa⟩
      obtain ⟨k, hk⟩ := Option.isSome_iff_exists.mp hfound
      cases k with
      | zero => exact ⟨_, _, printString_empty hk, hFD, hhelpers, hprinted, hheld⟩
      | succ k =>
        exact ⟨_, _, printString_prints hk, hFD, hhelpers,
          (sound_idle rfl).mpr ⟨trivial, hprinted⟩, hheld⟩
  · rintro hcall s ⟨-, hreturned⟩ hbad
    cases hreturned with
    | buffer hread _ => exact hcall hread
    | failed n _ => exact hbad.pointers _ List.mem_cons_self

/-! ## The blocks of `main` -/

/-- The descriptors open behind a block. -/
def leftOpen (res : Results) (opens closes : ℕ) (held : List ℤ) : List ℤ :=
  closed res closes (descriptor res opens) (opened res opens held)

/-- INTERNAL: a bad record stays bad. -/
theorem good_bind {P : State → Prop} {c c' : Prop} {α : Type} {x : Run State α}
    {f : α → Run State Value} {Q : α → State → Prop} {R : Value → State → Prop}
    (hx : Exact State.events Sound P c x Q)
    (hf : ∀ a, Exact State.events Sound (Q a) c' (f a) R) :
    Good P (c ∧ c') (x >>= f) R :=
  hx.bind (fun _ _ => Sound.of_suffix) hf

/-- INTERNAL: a block that opens a file. -/
theorem good_block {c : Prop} {opens rest : Run State Value} {Q : Value → State → Prop}
    (hopens : Good (At i fd held) True opens fun rax s =>
      rax = .number (descriptor res i) ∧ At (i + 1) fd (opened res i held) s)
    (hrest : Good (At (i + 1) (descriptor res i) (opened res i held))
      (descriptor res i ∈ opened res i held ∧ c) rest Q) :
    Good (At i fd held) ((0 ≤ res.call i ∨ res.message i ∈ held) ∧ c)
      (do
        storeFD (← opens)
        rest) Q := by
  apply (good_bind hopens fun rax => good_bind (good_storeFD _ rax) fun _ => hrest).congr
  rw [true_and, true_and, descriptor_mem_opened]

/-- INTERNAL: the writing and the closing. -/
theorem good_write_close (rsi : CString) (rdx : ℕ) :
    Good (At i fd held) (fd ∈ held)
      (do
        let _ ← withFD (writeFile res rsi rdx)
        withFD (closeFile res))
      fun _ s => At (i + 1 + 1) fd (closed res (i + 1) fd held) s := by
  have hwrite : Good (At i fd held) (fd ∈ held) (withFD (writeFile res rsi rdx)) fun _ s =>
      At (i + 1) fd held s :=
    good_use (by decide) (by decide) (fun _ _ => trivial) fun _ _ => rfl
  exact (good_bind hwrite fun _ => good_closeFile).congr (and_self_iff)

/-- INTERNAL: the positioning in front of the rest of a block. -/
theorem good_position {c : Prop} {rest : Run State Value} {Q : Value → State → Prop}
    (rsi rdx : ℕ) (hrest : Good (At (i + 1) fd held) (fd ∈ held ∧ c) rest Q) :
    Good (At i fd held) (fd ∈ held ∧ c)
      (do
        let _ ← withFD (positionFile res rsi rdx)
        rest) Q := by
  have hposition : Good (At i fd held) (fd ∈ held) (withFD (positionFile res rsi rdx))
      fun _ s => At (i + 1) fd held s :=
    good_use (by decide) (by decide) (fun _ _ => trivial) fun _ _ => rfl
  apply (good_bind hposition fun _ => hrest).congr
  rw [← and_assoc, and_self_iff]

/-- INTERNAL: the reading, the printing and the closing. -/
theorem good_read_close (hcount : res.call i ≤ bufferlen) (rdx : ℕ) :
    Good (At i fd held) (fd ∈ held ∧ 0 ≤ res.call i)
      (do
        let rax ← withFD fun rdi => readFile res rdi rdx
        let _ ← printRead res rax
        withFD (closeFile res))
      fun _ s => At (i + 1 + 1) fd (closed res (i + 1) fd held) s := by
  apply (good_bind (good_readFile hcount rdx) fun rax =>
    good_bind (good_printRead rax) fun _ => good_closeFile).congr
  constructor
  · exact fun h => ⟨h.1, h.2.1⟩
  · exact fun h => ⟨h.1, h.2, h.1⟩

theorem good_createFile :
    Good (At i fd held) True (createFile res) fun rax s =>
      rax = .number (descriptor res i) ∧ At (i + 1) fd (opened res i held) s :=
  good_opening (by decide) (by decide) (fun _ => trivial) fun _ => rfl

theorem good_openFile :
    Good (At i fd held) True (openFile res) fun rax s =>
      rax = .number (descriptor res i) ∧ At (i + 1) fd (opened res i held) s :=
  good_opening (by decide) (by decide) (fun _ => trivial) fun _ => rfl

theorem good_appendFile :
    Good (At i fd held) True (appendFile res) fun rax s =>
      rax = .number (descriptor res i) ∧ At (i + 1) fd (opened res i held) s :=
  good_opening (by decide) (by decide) (fun _ => trivial) fun _ => rfl

/-- INTERNAL: the blocks that write. -/
theorem good_writing {opens : Run State Value}
    (hopens : Good (At i fd held) True opens fun rax s =>
      rax = .number (descriptor res i) ∧ At (i + 1) fd (opened res i held) s)
    (rsi : CString) (rdx : ℕ) :
    Good (At i fd held) (0 ≤ res.call i ∨ res.message i ∈ held)
      (do
        storeFD (← opens)
        let _ ← withFD (writeFile res rsi rdx)
        withFD (closeFile res))
      fun _ s => At (i + 3) (descriptor res i) (leftOpen res i (i + 2) held) s := by
  have hrest : Good (At (i + 1) (descriptor res i) (opened res i held))
      (descriptor res i ∈ opened res i held ∧ True)
      (do
        let _ ← withFD (writeFile res rsi rdx)
        withFD (closeFile res))
      fun _ s => At (i + 3) (descriptor res i) (leftOpen res i (i + 2) held) s :=
    (good_write_close rsi rdx).congr (and_iff_left trivial).symm
  exact (good_block hopens hrest).congr (and_iff_left trivial)

theorem good_CREATE :
    Good (At i fd held) (0 ≤ res.call i ∨ res.message i ∈ held) (CREATE res) fun _ s =>
      At (i + 3) (descriptor res i) (leftOpen res i (i + 2) held) s :=
  good_writing good_createFile text1 text1.length

theorem good_OVERWRITE :
    Good (At i fd held) (0 ≤ res.call i ∨ res.message i ∈ held) (OVERWRITE res) fun _ s =>
      At (i + 3) (descriptor res i) (leftOpen res i (i + 2) held) s :=
  good_writing good_openFile text2 text2.length

theorem good_APPEND :
    Good (At i fd held) (0 ≤ res.call i ∨ res.message i ∈ held) (APPEND res) fun _ s =>
      At (i + 3) (descriptor res i) (leftOpen res i (i + 2) held) s :=
  good_writing good_appendFile text3 text3.length

theorem good_O_WRITE :
    Good (At i fd held) (0 ≤ res.call i ∨ res.message i ∈ held) (O_WRITE res) fun _ s =>
      At (i + 4) (descriptor res i) (leftOpen res i (i + 3) held) s := by
  have hrest : Good (At (i + 2) (descriptor res i) (opened res i held))
      (descriptor res i ∈ opened res i held ∧ True)
      (do
        let _ ← withFD (writeFile res text4 text4.length)
        withFD (closeFile res))
      fun _ s => At (i + 4) (descriptor res i) (leftOpen res i (i + 3) held) s :=
    (good_write_close text4 text4.length).congr (and_iff_left trivial).symm
  exact (good_block good_openFile (good_position text2.length 0 hrest)).congr
    (and_iff_left trivial)

theorem good_READ (hcount : res.call (i + 1) ≤ bufferlen) :
    Good (At i fd held) ((0 ≤ res.call i ∨ res.message i ∈ held) ∧ 0 ≤ res.call (i + 1))
      (READ res) fun _ s =>
        At (i + 3) (descriptor res i) (leftOpen res i (i + 2) held) s :=
  good_block good_openFile (good_read_close hcount bufferlen)

theorem good_O_READ (hcount : res.call (i + 2) ≤ bufferlen) :
    Good (At i fd held) ((0 ≤ res.call i ∨ res.message i ∈ held) ∧ 0 ≤ res.call (i + 2))
      (O_READ res) fun _ s =>
        At (i + 4) (descriptor res i) (leftOpen res i (i + 3) held) s :=
  good_block good_openFile (good_position text2.length 0 (good_read_close hcount 10))

theorem good_deleteFile :
    Good (At i fd held) True (deleteFile res) fun _ s => Sound s.events := by
  apply Exact.always (grows_reporting .unlink success_dl error_dl)
  intro s hs
  obtain ⟨n, hrun⟩ := reporting_run res .unlink s (show 0 < success_dl.length by decide)
    (show 0 < error_dl.length by decide)
  refine ⟨_, _, hrun, ?_⟩
  rw [sound_idle rfl, sound_idle rfl]
  exact ⟨trivial, trivial, hs.sound⟩

end Blocks

/-! ## The whole program -/

/-- The numbers of the helpers that open and close a file, block by block. -/
def files : List (ℕ × ℕ) := [(0, 2), (3, 5), (6, 8), (9, 12), (13, 15), (16, 19)]

/-- Each file is opened, or else the write of the message returns the number of a descriptor
that has been left open. -/
def AllOpened (res : Results) : List (ℕ × ℕ) → List ℤ → Prop
  | [], _ => True
  | (opens, closes) :: files, held =>
    (0 ≤ res.call opens ∨ res.message opens ∈ held) ∧
      AllOpened res files (leftOpen res opens closes held)

/-- INTERNAL: all blocks. -/
theorem good_main (res : Results) (hread : res.call 14 ≤ bufferlen) (hread' : res.call 18 ≤ 10) :
    Good (At 0 0 []) (AllOpened res files [] ∧ 0 ≤ res.call 14 ∧ 0 ≤ res.call 18) (main res)
      fun _ s => Sound s.events := by
  have hread'' : res.call 18 ≤ bufferlen := hread'.trans (by decide)
  apply (good_bind good_CREATE fun _ => good_bind good_OVERWRITE fun _ =>
    good_bind good_APPEND fun _ => good_bind good_O_WRITE fun _ =>
    good_bind (good_READ hread) fun _ => good_bind (good_O_READ hread'') fun _ =>
    good_deleteFile).congr
  constructor
  · rintro ⟨h0, h1, h2, h3, ⟨h4, hcall⟩, ⟨h5, hcall'⟩, -⟩
    exact ⟨⟨h0, h1, h2, h3, h4, h5, trivial⟩, hcall, hcall'⟩
  · rintro ⟨⟨h0, h1, h2, h3, h4, h5, -⟩, hcall, hcall'⟩
    exact ⟨h0, h1, h2, h3, ⟨h4, hcall⟩, ⟨h5, hcall'⟩, trivial⟩

/-- INTERNAL: nothing has been done. -/
theorem at_start : At 0 0 [] start := by
  refine ⟨rfl, rfl, ⟨proper_nil, fun e he => absurd he List.not_mem_nil⟩, ?_⟩
  intro d
  exact iff_of_false held_nil List.not_mem_nil

/-- **The program acts on error codes.** Only descriptors that are open are used and only
strings are printed exactly when every file is opened, or the printing of the error stands in
for the descriptor, and both reads succeed. -/
theorem main_sound_iff (res : Results) (hread : res.call 14 ≤ bufferlen)
    (hread' : res.call 18 ≤ 10) :
    Sound (final (main res) start).events ↔
      AllOpened res files [] ∧ 0 ≤ res.call 14 ∧ 0 ≤ res.call 18 :=
  (good_main res hread hread').good_iff (fun _ _ h => h) at_start

/-- All calls succeed: each file has the descriptor 3, and each read delivers ten bytes. -/
def succeeding : Results :=
  ⟨fun i => if i = 14 ∨ i = 18 then 10 else 3, fun _ => 1, fun _ => 1, fun _ _ => NL⟩

theorem main_sound_iff_succeeding : Sound (final (main succeeding) start).events := by
  apply (main_sound_iff succeeding (by decide) (by decide)).mpr
  have hopen : ∀ i, 0 ≤ succeeding.call i := by
    intro i
    unfold succeeding
    dsimp only
    split <;> decide
  exact ⟨⟨.inl (hopen 0), .inl (hopen 3), .inl (hopen 6), .inl (hopen 9), .inl (hopen 13),
    .inl (hopen 16), trivial⟩, hopen 14, hopen 18⟩

/-- The file is not accessible (-13), nothing else is an open descriptor (-9), and the messages
are written whole. -/
def denied : Results where
  call := fun i => [-13, -9, -9, -13, -9, -9, -13, -9, -9, -13, -9, -9, -9, -13, -9].getD i 0
  message := fun i => [20, 22, 17, 19, 22, 17, 24, 22, 17, 19, 26, 22, 17, 19, 19].getD i 0
  shown := fun _ => 0
  bytes := fun _ _ => 0

/-- What the write of the message has returned is used as a descriptor. -/
theorem main_uses_error_code :
    Event.write (.number 20) text1 text1.length (-9) ∈ (final (main denied) start).events ∧
      ¬Sound (final (main denied) start).events := by
  constructor
  · -- all but the two oldest events are newer
    apply List.mem_of_getElem? (i := 28)
    rfl
  · apply (good_main denied (by decide) (by decide)).bad _ start at_start
    rintro ⟨⟨hfile, -⟩, -⟩
    rcases hfile with hcall | hmessage
    · exact absurd hcall (by decide)
    · exact absurd hmessage List.not_mem_nil

end UbuntuProjects.FileIo
