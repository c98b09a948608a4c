import UbuntuProjects.Model.SendrecvFd

/-!
# Error reports in pieces

`send_err` sends the text of the error and then NUL and the code. `recv_fd` looks at the
pieces one by one. In a piece it calls `userfunc` once for each byte it looks at, with the
whole piece, so the text is passed on as often as the piece is long. The place of the NUL
is compared with the end of the current piece, so NUL and code have to arrive together.
-/

set_option autoImplicit false

namespace UbuntuProjects.SendrecvFd

open Memory UbuntuProjects.ErrFuncs

/-- `userfunc` takes all the bytes it is given. -/
def Accepts (userfunc : List (List UInt8) → List UInt8 → ℤ) : Prop :=
  ∀ before range, userfunc before range = range.length

/-- The bytes of an error report with text `m` and code `c`. -/
def errStream (m : CString) (c : UInt8) : List UInt8 := m.bytes ++ [0, c]

/-- The pieces carry exactly these bytes. -/
def Delivers (pieces : List Received) (stream : List UInt8) : Prop :=
  pieces.flatMap Received.bytes = stream

/-- The last two bytes of the pieces are in the same piece. -/
def EndsTogether (pieces : List Received) : Prop :=
  ∃ before last text c, pieces = before ++ [last] ∧ last.bytes = text ++ [0, c]

/-! ## One piece -/

section Pieces

variable {userfunc : List (List UInt8) → List UInt8 → ℤ} {msg : Received} {l : Locals}
  {xs ys : List UInt8} {ptr : ℕ}

/-- INTERNAL: the whole piece is taken. -/
theorem passOn_whole (hacc : Accepts userfunc) (hnr : l.nr = msg.bytes.length) :
    passOn userfunc msg l = .ok { l with passed := l.passed ++ [msg.bytes] } := by
  have hpos : 0 < l.nr := by
    rw [hnr]
    exact_mod_cast List.length_pos_iff.mpr msg.nonempty
  have htake : msg.bytes.take l.nr.toNat = msg.bytes := by
    apply List.take_of_length_le
    omega
  have hall : userfunc l.passed msg.bytes = l.nr := by
    rw [hacc, hnr]
  unfold passOn
  rw [if_pos hpos, htake, if_neg (not_not_intro hall)]
  rfl

/-- INTERNAL: what follows a part that ends well. -/
theorem ok_bind {f : Locals → Except Result Locals} : (Except.ok l >>= f) = f l := rfl

/-- INTERNAL: one turn of the inner loop. -/
theorem scan_cons {x : UInt8} (hptr : (ptr : ℤ) < l.nr) :
    scan userfunc msg (x :: ys) ptr l =
      (if x = 0 then readStatus msg (ptr + 1) ys l else .ok l) >>= fun l =>
        passOn userfunc msg l >>= fun l =>
          if 0 ≤ l.status then .error ⟨.returns l.newfd, l.passed⟩
          else scan userfunc msg ys (ptr + 1) l := by
  have hjoin : ∀ (p : Prop) [Decidable p] (e : Result) (k : Except Result Locals),
      (if p then (throw e : Except Result PUnit) >>= fun _ => k else k) =
        if p then .error e else k := by
    intro p _ e k
    by_cases h : p
    · rw [if_pos h, if_pos h]
      rfl
    · rw [if_neg h, if_neg h]
  rw [scan, if_pos hptr]
  simp only [← hjoin]
  by_cases hx : x = 0
  · rw [if_pos hx, if_pos hx]
  · rw [if_neg hx, if_neg hx]
    rfl

/-- INTERNAL: a byte of the text makes `recv_fd` pass on the whole piece. -/
theorem scan_byte (hacc : Accepts userfunc) {x : UInt8} (hx : x ≠ 0) (hstatus : l.status < 0)
    (hnr : l.nr = msg.bytes.length) (hptr : ptr < msg.bytes.length) :
    scan userfunc msg (x :: ys) ptr l =
      scan userfunc msg ys (ptr + 1) { l with passed := l.passed ++ [msg.bytes] } := by
  have hlt : (ptr : ℤ) < l.nr := by
    rw [hnr]
    exact_mod_cast hptr
  have hgoes : ¬0 ≤ l.status := not_le.mpr hstatus
  rw [scan_cons hlt, if_neg hx, ok_bind, passOn_whole hacc hnr, ok_bind,
    if_neg hgoes]

/-- INTERNAL: bytes without NUL pass on the whole piece once for each of them. -/
theorem scan_text (xs ys : List UInt8) (ptr : ℕ) (hacc : Accepts userfunc) (hxs : 0 ∉ xs)
    (hstatus : l.status < 0) (hnr : l.nr = msg.bytes.length)
    (hptr : ptr + xs.length ≤ msg.bytes.length) :
    scan userfunc msg (xs ++ ys) ptr l =
      scan userfunc msg ys (ptr + xs.length)
        { l with passed := l.passed ++ List.replicate xs.length msg.bytes } := by
  induction xs generalizing ptr l with
  | nil => simp
  | cons x xs ih =>
    have hx : x ≠ 0 := fun h => hxs (h ▸ List.mem_cons_self)
    have hrest : 0 ∉ xs := fun h => hxs (List.mem_cons_of_mem _ h)
    rw [List.length_cons] at hptr
    rw [List.cons_append, scan_byte hacc hx hstatus hnr (by omega)]
    have hnext := ih (l := { l with passed := l.passed ++ [msg.bytes] }) (ptr + 1) hrest
      hstatus hnr (by omega)
    rw [hnext, List.length_cons, List.replicate_succ, List.append_assoc, Nat.add_assoc,
      Nat.add_comm 1]
    rfl

/-- INTERNAL: a NUL that is the last byte of its piece ends in `err_dump`. -/
theorem scan_nul_last (hnr : l.nr = msg.bytes.length) (hptr : ptr + 1 = msg.bytes.length) :
    scan userfunc msg [0] ptr l =
      .error (die err_dump "message format violation" l) := by
  have hlt : (ptr : ℤ) < l.nr := by omega
  have hend : ((ptr + 1 : ℕ) : ℤ) ≠ l.nr - 1 := by omega
  rw [scan_cons hlt, if_pos rfl]
  unfold readStatus
  rw [if_pos hend]
  rfl

/-- INTERNAL: a code that is not zero, right behind the NUL at the end of the piece. -/
theorem readStatus_code {c : UInt8} (hc : c ≠ 0) (hptr : (ptr : ℤ) = l.nr - 1) :
    readStatus msg ptr [c] l =
      .ok { l with status := c.toNat, newfd := -c.toNat, nr := l.nr - 2 } := by
  have hcode : ¬((([c] : List UInt8).headD 0).toNat : ℤ) = 0 := by
    intro h
    exact hc (UInt8.toNat_inj.mp (by exact_mod_cast h))
  unfold readStatus
  rw [if_neg (not_not_intro hptr)]
  show (if ((([c] : List UInt8).headD 0).toNat : ℤ) = 0 then _ else _) = _
  rw [if_neg hcode]
  rfl

/-- INTERNAL: what stands in front of the NUL in the last piece is passed on, if anything. -/
theorem passOn_text (hacc : Accepts userfunc) (hnr : l.nr = xs.length)
    (hmsg : msg.bytes = xs ++ ys) :
    passOn userfunc msg l =
      .ok { l with passed := l.passed ++ if xs = [] then [] else [xs] } := by
  have htake : msg.bytes.take l.nr.toNat = xs := by
    rw [hmsg, hnr, Int.toNat_natCast, List.take_left]
  unfold passOn
  by_cases hxs : xs = []
  · have hzero : ¬0 < l.nr := by
      rw [hnr, hxs]
      decide
    rw [if_neg hzero, if_pos hxs, List.append_nil]
    rfl
  · have hpos : 0 < l.nr := by
      rw [hnr]
      exact_mod_cast List.length_pos_iff.mpr hxs
    have hall : userfunc l.passed xs = l.nr := by
      rw [hacc, hnr]
    rw [if_pos hpos, htake, if_neg (not_not_intro hall), if_neg hxs]
    rfl

/-- INTERNAL: NUL and code at the end of the piece: the code is returned, and what is in
front of the NUL is passed on once more. -/
theorem scan_nul_code (hacc : Accepts userfunc) {c : UInt8} (hc : c ≠ 0)
    (hnr : l.nr = msg.bytes.length) (hmsg : msg.bytes = xs ++ [0, c]) :
    scan userfunc msg [0, c] xs.length l =
      .error ⟨.returns (-c.toNat), l.passed ++ if xs = [] then [] else [xs]⟩ := by
  have hlen : msg.bytes.length = xs.length + 2 := by
    rw [hmsg, List.length_append]
    rfl
  have hlt : (xs.length : ℤ) < l.nr := by omega
  have hend : ((xs.length + 1 : ℕ) : ℤ) = l.nr - 1 := by omega
  have hfront : l.nr - 2 = xs.length := by omega
  have hdone : (0 : ℤ) ≤ c.toNat := Int.natCast_nonneg _
  rw [scan_cons hlt, if_pos rfl, readStatus_code hc hend, ok_bind,
    passOn_text hacc hfront hmsg, ok_bind, if_pos hdone]

end Pieces

/-! ## All pieces -/

section Streams

variable {userfunc : List (List UInt8) → List UInt8 → ℤ} {l : Locals}

/-- What `userfunc` is called with for a piece of the text. -/
def repeated (msg : Received) : List (List UInt8) :=
  List.replicate msg.bytes.length msg.bytes

/-- INTERNAL: the inner loop ends the run. -/
theorem loop_of_error {msg : Received} {turns : List Turn} {result : Result}
    (h : scan userfunc msg msg.bytes 0 { l with nr := msg.bytes.length } = .error result) :
    loop userfunc (.received msg :: turns) l = result := by
  rw [loop, h]

/-- INTERNAL: the inner loop gets to the end of the piece. -/
theorem loop_of_ok {msg : Received} {turns : List Turn} {l' : Locals}
    (h : scan userfunc msg msg.bytes 0 { l with nr := msg.bytes.length } = .ok l') :
    loop userfunc (.received msg :: turns) l = loop userfunc turns l' := by
  rw [loop, h]

/-- INTERNAL: a piece without NUL is passed on as often as it is long. -/
theorem loop_text (hacc : Accepts userfunc) {msg : Received} (hmsg : 0 ∉ msg.bytes)
    (hstatus : l.status < 0) (turns : List Turn) :
    loop userfunc (.received msg :: turns) l =
      loop userfunc turns
        { l with nr := msg.bytes.length, passed := l.passed ++ repeated msg } := by
  have hscan := scan_text msg.bytes [] 0 (l := { l with nr := msg.bytes.length }) hacc hmsg
    hstatus rfl (by omega)
  rw [List.append_nil] at hscan
  exact loop_of_ok hscan

/-- INTERNAL: pieces without NUL, one after the other. -/
theorem loop_texts (hacc : Accepts userfunc) (pieces : List Received)
    (hpieces : ∀ msg ∈ pieces, 0 ∉ msg.bytes) (hstatus : l.status < 0) (turns : List Turn) :
    ∃ nr, loop userfunc (pieces.map .received ++ turns) l =
      loop userfunc turns { l with nr := nr, passed := l.passed ++ pieces.flatMap repeated } := by
  induction pieces generalizing l with
  | nil => exact ⟨l.nr, by simp⟩
  | cons msg pieces ih =>
    have hfirst := hpieces msg List.mem_cons_self
    have hrest : ∀ msg ∈ pieces, 0 ∉ msg.bytes :=
      fun msg h => hpieces msg (List.mem_cons_of_mem _ h)
    obtain ⟨nr, hnr⟩ := ih
      (l := { l with nr := msg.bytes.length, passed := l.passed ++ repeated msg })
      hrest hstatus
    refine ⟨nr, ?_⟩
    rw [List.map_cons, List.cons_append, loop_text hacc hfirst hstatus, hnr,
      List.flatMap_cons, ← List.append_assoc]

/-- INTERNAL: pieces of text, and then one in which the run ends behind the text. -/
theorem recv_fd_of_error (hacc : Accepts userfunc) {before : List Received} {msg : Received}
    {text ys : List UInt8} {result : Result} (hbefore : ∀ msg ∈ before, 0 ∉ msg.bytes)
    (htext : 0 ∉ text) (hmsg : msg.bytes = text ++ ys) (after : List Received)
    (hend : scan userfunc msg ys text.length ⟨msg.bytes.length, -1, 0, before.flatMap repeated ++
      List.replicate text.length msg.bytes⟩ = .error result) :
    recv_fd userfunc ((before ++ msg :: after).map .received) = result := by
  obtain ⟨nr, hloop⟩ := loop_texts (l := ⟨0, -1, 0, []⟩) hacc before hbefore (by decide)
    (.received msg :: after.map .received)
  have hneg : (-1 : ℤ) < 0 := by decide
  have hle : 0 + text.length ≤ msg.bytes.length := by
    rw [hmsg, List.length_append]
    omega
  have hscan := scan_text text ys 0
    (l := ⟨msg.bytes.length, -1, 0, before.flatMap repeated⟩) hacc htext hneg rfl hle
  rw [Nat.zero_add, hend, ← hmsg] at hscan
  unfold recv_fd
  rw [List.map_append, List.map_cons, hloop]
  exact loop_of_error hscan

/-- INTERNAL: a report whose last two bytes arrive together returns the code. -/
theorem recv_fd_together (hacc : Accepts userfunc) {c : UInt8} (hc : c ≠ 0)
    {before : List Received} {last : Received} {text : List UInt8}
    (hbefore : ∀ msg ∈ before, 0 ∉ msg.bytes) (htext : 0 ∉ text)
    (hlast : last.bytes = text ++ [0, c]) :
    recv_fd userfunc ((before ++ [last]).map .received) =
      ⟨.returns (-c.toNat), before.flatMap repeated ++
        List.replicate text.length last.bytes ++ if text = [] then [] else [text]⟩ := by
  apply recv_fd_of_error hacc hbefore htext hlast []
  exact scan_nul_code hacc hc rfl hlast

/-- INTERNAL: a report whose NUL ends a piece ends in `err_dump`. -/
theorem recv_fd_apart (hacc : Accepts userfunc) {before : List Received} {msg : Received}
    {text : List UInt8} (hbefore : ∀ msg ∈ before, 0 ∉ msg.bytes) (htext : 0 ∉ text)
    (hmsg : msg.bytes = text ++ [0]) (after : List Received) :
    (recv_fd userfunc ((before ++ msg :: after).map .received)).outcome =
      .ends .aborts "message format violation" := by
  have hlen : text.length + 1 = msg.bytes.length := by
    rw [hmsg, List.length_append]
    rfl
  rw [recv_fd_of_error hacc hbefore htext hmsg after (scan_nul_last rfl hlen)]
  rfl

end Streams

/-! ## Where the end of the stream falls -/

/-- INTERNAL: the last byte of a stream is in its last piece. -/
theorem split_last_byte {α : Type} {front last stream : List α} {a : α} (hlast : last ≠ [])
    (h : front ++ last = stream ++ [a]) :
    ∃ text, last = text ++ [a] ∧ front ++ text = stream := by
  obtain ⟨text, b, rfl⟩ := (List.eq_nil_or_concat last).resolve_left hlast
  rw [List.concat_eq_append, ← List.append_assoc] at h
  obtain ⟨hfront, hb⟩ := List.append_inj' h rfl
  have hab : b = a := List.singleton_inj.mp hb
  exact ⟨text, by rw [List.concat_eq_append, hab], hfront⟩

/-- INTERNAL: pieces of a stream that is not empty have a last piece. -/
theorem Delivers.split_last {pieces : List Received} {stream : List UInt8} {b : UInt8}
    (h : Delivers pieces (stream ++ [b])) :
    ∃ before last text, pieces = before ++ [last] ∧ last.bytes = text ++ [b] ∧
      before.flatMap Received.bytes ++ text = stream := by
  unfold Delivers at h
  have hne : pieces ≠ [] := by
    intro hnil
    rw [hnil, List.flatMap_nil] at h
    exact absurd h.symm (List.append_ne_nil_of_right_ne_nil _ (List.cons_ne_nil _ _))
  obtain ⟨before, last, rfl⟩ := (List.eq_nil_or_concat pieces).resolve_left hne
  rw [List.concat_eq_append, List.flatMap_append, List.flatMap_singleton] at h
  obtain ⟨text, hlast, hfront⟩ := split_last_byte last.nonempty h
  exact ⟨before, last, text, List.concat_eq_append, hlast, hfront⟩

/-- INTERNAL: NUL and code arrive together, or the NUL ends the last piece but one. -/
theorem Delivers.cases {pieces : List Received} {m : CString} {c : UInt8}
    (h : Delivers pieces (errStream m c)) :
    (∃ before last text, pieces = before ++ [last] ∧ last.bytes = text ++ [0, c] ∧
      before.flatMap Received.bytes ++ text = m.bytes) ∨
    (∃ before msg last text, pieces = before ++ [msg, last] ∧ msg.bytes = text ++ [0] ∧
      last.bytes = [c] ∧ before.flatMap Received.bytes ++ text = m.bytes) := by
  have hstream : errStream m c = (m.bytes ++ [0]) ++ [c] := by
    unfold errStream
    rw [List.append_assoc]
    rfl
  rw [hstream] at h
  obtain ⟨before, last, text, rfl, hlast, hfront⟩ := h.split_last
  by_cases htext : text = []
  · rw [htext, List.append_nil] at hfront
    obtain ⟨before', msg, text', rfl, hmsg, hfront'⟩ := Delivers.split_last hfront
    refine .inr ⟨before', msg, last, text', by rw [List.append_assoc]; rfl, hmsg, ?_, hfront'⟩
    rw [hlast, htext, List.nil_append]
  · obtain ⟨text', rfl, hfront'⟩ := split_last_byte htext hfront
    refine .inl ⟨before, last, text', rfl, ?_, hfront'⟩
    rw [hlast, List.append_assoc]
    rfl

/-- INTERNAL: no NUL in front of the one that ends the message. -/
theorem nul_notMem_front {before : List Received} {text : List UInt8} {m : CString}
    (h : before.flatMap Received.bytes ++ text = m.bytes) :
    (∀ msg ∈ before, 0 ∉ msg.bytes) ∧ 0 ∉ text := by
  constructor
  · intro msg hmsg h0
    apply m.no_nul
    rw [← h]
    exact List.mem_append_left _ (List.mem_flatMap.mpr ⟨msg, hmsg, h0⟩)
  · intro h0
    apply m.no_nul
    rw [← h]
    exact List.mem_append_right _ h0

/-- INTERNAL: pieces that end with NUL and code have them together. -/
theorem endsTogether_iff {before : List Received} {last : Received} :
    EndsTogether (before ++ [last]) ↔ ∃ text c, last.bytes = text ++ [0, c] := by
  constructor
  · rintro ⟨before', last', text, c, heq, hlast⟩
    obtain ⟨-, hsame⟩ := List.append_inj' heq rfl
    rw [List.singleton_inj.mp hsame]
    exact ⟨text, c, hlast⟩
  · rintro ⟨text, c, hlast⟩
    exact ⟨before, last, text, c, rfl, hlast⟩

/-- INTERNAL: a last piece of one byte holds the code alone. -/
theorem not_endsTogether_of_single {before : List Received} {msg last : Received} {c : UInt8}
    (hlast : last.bytes = [c]) : ¬EndsTogether (before ++ [msg, last]) := by
  have hsplit : before ++ [msg, last] = (before ++ [msg]) ++ [last] := by
    rw [List.append_assoc]
    rfl
  rw [hsplit, endsTogether_iff]
  rintro ⟨text, c', hlast'⟩
  have hlen := congrArg List.length (hlast.symm.trans hlast')
  rw [List.length_append, List.length_singleton, List.length_cons, List.length_singleton] at hlen
  omega

/-- **Which segmentations are accepted.** `recv_fd` returns a negative code exactly when the
NUL and the code of the report arrive in one piece; otherwise it ends in `err_dump`.
SRCLINE: sendrecv_fd.c:57-100 -/
theorem recv_fd_accepts_iff (m : CString) (c : UInt8) (hc : c ≠ 0)
    (userfunc : List (List UInt8) → List UInt8 → ℤ) (hacc : Accepts userfunc)
    (pieces : List Received) (hpieces : Delivers pieces (errStream m c)) :
    ((recv_fd userfunc (pieces.map .received)).outcome ≠
        .ends .aborts "message format violation" ∧
      ∃ code, (recv_fd userfunc (pieces.map .received)).outcome = .returns code ∧ code < 0) ↔
    EndsTogether pieces := by
  rcases hpieces.cases with ⟨before, last, text, rfl, hlast, hm⟩ |
    ⟨before, msg, last, text, rfl, hmsg, hlast, hm⟩
  · obtain ⟨hbefore, htext⟩ := nul_notMem_front hm
    have hpos : 0 < c.toNat := Nat.pos_of_ne_zero fun h => hc (UInt8.toNat_inj.mp h)
    rw [recv_fd_together hacc hc hbefore htext hlast, endsTogether_iff]
    constructor
    · intro _
      exact ⟨text, c, hlast⟩
    · intro _
      exact ⟨nofun, _, rfl, by omega⟩
  · obtain ⟨hbefore, htext⟩ := nul_notMem_front hm
    constructor
    · rintro ⟨hne, -⟩
      exact absurd (recv_fd_apart hacc hbefore htext hmsg [last]) hne
    · intro htogether
      exact absurd htogether (not_endsTogether_of_single hlast)

/-- Text and code in one piece. -/
theorem recv_fd_accepts_iff_hi :
    ((recv_fd (fun _ range => range.length)
        [.received ⟨[104, 105, 0, 7], by decide, by decide, 0, 0⟩]).outcome ≠
          .ends .aborts "message format violation" ∧
      ∃ code, (recv_fd (fun _ range => range.length)
        [.received ⟨[104, 105, 0, 7], by decide, by decide, 0, 0⟩]).outcome =
          .returns code ∧ code < 0) ↔
    EndsTogether [⟨[104, 105, 0, 7], by decide, by decide, 0, 0⟩] :=
  recv_fd_accepts_iff ⟨[104, 105], by decide⟩ 7 (by decide) (fun _ range => range.length)
    (fun _ _ => rfl) [⟨[104, 105, 0, 7], by decide, by decide, 0, 0⟩] rfl

/-- A report without text whose NUL arrives alone. -/
theorem recv_fd_rejects :
    ¬∀ (m : CString) (c : UInt8), c ≠ 0 →
      ∀ userfunc : List (List UInt8) → List UInt8 → ℤ, Accepts userfunc →
      ∀ pieces : List Received, Delivers pieces (errStream m c) →
        (recv_fd userfunc (pieces.map .received)).outcome ≠
          .ends .aborts "message format violation" ∧
        ∃ code, (recv_fd userfunc (pieces.map .received)).outcome = .returns code ∧
          code < 0 := by
  intro hall
  obtain ⟨hne, -⟩ := hall ⟨[], by decide⟩ 7 (by decide) (fun _ range => range.length)
    (fun _ _ => rfl)
    [⟨[0], by decide, by decide, 0, 0⟩, ⟨[7], by decide, by decide, 0, 0⟩] rfl
  exact hne rfl

/-! ## What is passed on -/

/-- INTERNAL: `n` bytes are passed on `n` times. -/
theorem length_flatten_repeated (msg : Received) :
    (repeated msg).flatten.length = msg.bytes.length * msg.bytes.length := by
  unfold repeated
  rw [List.length_flatten, List.map_replicate, List.sum_replicate_nat]

/-- INTERNAL: no piece is passed on less than once, and one that is not a single byte more
than once. -/
theorem length_flatMap_le (pieces : List Received) :
    (pieces.flatMap Received.bytes).length ≤ (pieces.flatMap repeated).flatten.length ∧
      ((pieces.flatMap repeated).flatten.length ≤ (pieces.flatMap Received.bytes).length →
        ∀ msg ∈ pieces, msg.bytes.length = 1) := by
  induction pieces with
  | nil => simp
  | cons msg pieces ih =>
    obtain ⟨hle, hone⟩ := ih
    have hpos : 0 < msg.bytes.length := List.length_pos_iff.mpr msg.nonempty
    have hsquare : msg.bytes.length * 1 ≤ msg.bytes.length * msg.bytes.length :=
      Nat.mul_le_mul_left _ hpos
    rw [List.flatMap_cons, List.flatMap_cons, List.flatten_append, List.length_append,
      List.length_append, length_flatten_repeated]
    constructor
    · omega
    · intro h x hx
      rcases List.mem_cons.mp hx with rfl | hx
      · have hself : x.bytes.length * x.bytes.length ≤ x.bytes.length * 1 := by omega
        have hle1 := Nat.le_of_mul_le_mul_left hself hpos
        omega
      · exact hone (by omega) x hx

/-- INTERNAL: pieces of one byte are passed on once. -/
theorem flatten_repeated_of_single (pieces : List Received)
    (h : ∀ msg ∈ pieces, msg.bytes.length = 1) :
    (pieces.flatMap repeated).flatten = pieces.flatMap Received.bytes := by
  induction pieces with
  | nil => rfl
  | cons msg pieces ih =>
    have hmsg : repeated msg = [msg.bytes] := by
      unfold repeated
      rw [h msg List.mem_cons_self]
      rfl
    rw [List.flatMap_cons, List.flatMap_cons, List.flatten_append, hmsg,
      ih fun x hx => h x (List.mem_cons_of_mem _ hx), List.flatten_singleton]

/-- INTERNAL: how much is passed on in all. -/
theorem length_passed_together (before : List Received) (last : List UInt8)
    (text : List UInt8) :
    (before.flatMap repeated ++ List.replicate text.length last ++
        if text = [] then [] else [text]).flatten.length =
      (before.flatMap repeated).flatten.length + text.length * last.length + text.length := by
  have hend : (if text = [] then [] else [text]).flatten.length = text.length := by
    by_cases h : text = []
    · rw [if_pos h, h]
      rfl
    · rw [if_neg h, List.flatten_singleton]
  rw [List.flatten_append, List.flatten_append, List.length_append, List.length_append, hend,
    List.length_flatten (L := List.replicate _ _), List.map_replicate, List.sum_replicate_nat]

/-- INTERNAL: lists of one element each are the elements of their concatenation. -/
theorem map_singleton_flatten {α : Type} (xss : List (List α)) (h : ∀ xs ∈ xss, xs.length = 1) :
    xss.flatten.map (fun x => [x]) = xss := by
  induction xss with
  | nil => rfl
  | cons xs xss ih =>
    obtain ⟨x, rfl⟩ := List.length_eq_one_iff.mp (h xs List.mem_cons_self)
    rw [List.flatten_cons, List.map_append, ih fun ys hys => h ys (List.mem_cons_of_mem _ hys)]
    rfl

/-- INTERNAL: single bytes in front of the last piece, in terms of the message. -/
theorem map_bytes_eq_iff {before : List Received} {last : Received} {text : List UInt8}
    {m : CString} {c : UInt8} (hlast : last.bytes = text ++ [0, c])
    (hm : before.flatMap Received.bytes ++ text = m.bytes) :
    (before ++ [last]).map Received.bytes = m.bytes.map (fun b => [b]) ++ [[0, c]] ↔
      (∀ msg ∈ before, msg.bytes.length = 1) ∧ text = [] := by
  rw [List.map_append, List.map_singleton, hlast]
  constructor
  · intro h
    obtain ⟨hbefore, hend⟩ := List.append_inj' h rfl
    constructor
    · intro msg hmsg
      have hmem : msg.bytes ∈ m.bytes.map (fun b => [b]) := by
        rw [← hbefore]
        exact List.mem_map_of_mem hmsg
      obtain ⟨b, -, hb⟩ := List.mem_map.mp hmem
      rw [← hb]
      rfl
    · exact List.append_left_eq_self.mp (List.singleton_inj.mp hend)
  · rintro ⟨hone, rfl⟩
    have hsingle := map_singleton_flatten (before.map Received.bytes) fun xs hxs => by
      obtain ⟨msg, hmsg, rfl⟩ := List.mem_map.mp hxs
      exact hone msg hmsg
    rw [List.append_nil, List.flatMap_def] at hm
    rw [← hm, hsingle]
    rfl

/-- **What the caller sees of a report.** When NUL and code arrive together the code is
returned; `userfunc` is given the text exactly when each of its bytes arrived alone.
SRCLINE: sendrecv_fd.c:57-100, sendrecv_fd.h:9-13 -/
theorem recv_fd_reports_iff (m : CString) (c : UInt8) (hc : c ≠ 0)
    (userfunc : List (List UInt8) → List UInt8 → ℤ) (hacc : Accepts userfunc)
    (pieces : List Received) (hpieces : Delivers pieces (errStream m c))
    (htogether : EndsTogether pieces) :
    ((recv_fd userfunc (pieces.map .received)).outcome = .returns (-c.toNat) ∧
      (recv_fd userfunc (pieces.map .received)).passed.flatten = m.bytes) ↔
    pieces.map Received.bytes = m.bytes.map (fun b => [b]) ++ [[0, c]] := by
  rcases hpieces.cases with ⟨before, last, text, rfl, hlast, hm⟩ |
    ⟨before, msg, last, text, rfl, hmsg, hlast, hm⟩
  · obtain ⟨hbefore, htext⟩ := nul_notMem_front hm
    rw [recv_fd_together hacc hc hbefore htext hlast, map_bytes_eq_iff hlast hm]
    constructor
    · rintro ⟨-, hpassed⟩
      have hlen := congrArg List.length (hpassed.trans hm.symm)
      rw [length_passed_together, hlast, List.length_append, List.length_append] at hlen
      obtain ⟨hle, hone⟩ := length_flatMap_le before
      have hzero : text.length * (text.length + [0, c].length) = 0 := by omega
      have htext0 : text.length = 0 := (Nat.mul_eq_zero.mp hzero).elim id
        fun h => absurd h (Nat.succ_ne_zero _)
      exact ⟨hone (by omega), List.eq_nil_of_length_eq_zero htext0⟩
    · rintro ⟨hone, rfl⟩
      refine ⟨rfl, ?_⟩
      rw [← hm]
      simp [flatten_repeated_of_single before hone]
  · exact absurd htogether (not_endsTogether_of_single hlast)

/-- One byte of text, then NUL and code. -/
theorem recv_fd_reports_iff_h :
    ((recv_fd (fun _ range => range.length)
        [.received ⟨[104], by decide, by decide, 0, 0⟩,
          .received ⟨[0, 7], by decide, by decide, 0, 0⟩]).outcome = .returns (-7) ∧
      (recv_fd (fun _ range => range.length)
        [.received ⟨[104], by decide, by decide, 0, 0⟩,
          .received ⟨[0, 7], by decide, by decide, 0, 0⟩]).passed.flatten = [104]) ↔
    [[104], [0, 7]] = [[104], [(0 : UInt8), 7]] :=
  recv_fd_reports_iff ⟨[104], by decide⟩ 7 (by decide) (fun _ range => range.length)
    (fun _ _ => rfl)
    [⟨[104], by decide, by decide, 0, 0⟩, ⟨[0, 7], by decide, by decide, 0, 0⟩] rfl
    ⟨[⟨[104], by decide, by decide, 0, 0⟩], ⟨[0, 7], by decide, by decide, 0, 0⟩, [], 7,
      rfl, rfl⟩

/-- A text of two bytes in one piece with NUL and code is passed on three times, twice with
NUL and code. -/
theorem recv_fd_repeats :
    ¬∀ (m : CString) (c : UInt8), c ≠ 0 →
      ∀ userfunc : List (List UInt8) → List UInt8 → ℤ, Accepts userfunc →
      ∀ pieces : List Received, Delivers pieces (errStream m c) → EndsTogether pieces →
        (recv_fd userfunc (pieces.map .received)).outcome = .returns (-c.toNat) ∧
        (recv_fd userfunc (pieces.map .received)).passed.flatten = m.bytes := by
  intro hall
  obtain ⟨-, hpassed⟩ := hall ⟨[104, 105], by decide⟩ 7 (by decide)
    (fun _ range => range.length) (fun _ _ => rfl)
    [⟨[104, 105, 0, 7], by decide, by decide, 0, 0⟩] rfl
    ⟨[], ⟨[104, 105, 0, 7], by decide, by decide, 0, 0⟩, [104, 105], 7, rfl, rfl⟩
  exact absurd hpassed (by decide)

end UbuntuProjects.SendrecvFd
