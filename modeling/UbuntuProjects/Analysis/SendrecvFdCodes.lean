import UbuntuProjects.Analysis.SendrecvFd

/-!
# Error codes in one byte

`send_fd` stores the negated error code in a `char` (`buf[1] = -sending_fd`,
sendrecv_fd.c:34), and `recv_fd` takes a code zero for a descriptor. The codes whose
negation ends in a zero byte come without the control message that is then expected.
-/

set_option autoImplicit false

namespace UbuntuProjects.SendrecvFd

open Memory UbuntuProjects.ErrFuncs

/-! ## The byte of a code -/

/-- INTERNAL: the code byte of an error is its negation modulo 256. -/
theorem toNat_code (x : Int32) : ((-x).toInt8.toUInt8.toNat : ℤ) = -x.toInt % 256 := by
  have hlow : (-x).toInt8.toUInt8.toNat = (-x).toBitVec.toNat % 256 := by
    show ((-x).toBitVec.signExtend 8).toNat = _
    rw [BitVec.signExtend_eq_setWidth_of_le _ (by decide), BitVec.toNat_setWidth]
  have hx : x.toInt = x.toBitVec.toInt := rfl
  rw [hlow, Int32.toBitVec_neg, BitVec.toNat_neg, hx, BitVec.toInt_eq_toNat_cond]
  split <;> omega

/-- INTERNAL: the sign test of `send_fd`. -/
theorem neg_iff (x : Int32) : x < 0 ↔ x.toInt < 0 := by
  rw [Int32.lt_iff_toInt_lt]
  rfl

/-- INTERNAL: a negative code is sent without control message. -/
theorem sentMessage_neg {x : Int32} (hx : x.toInt < 0) :
    sentMessage x = ⟨0, (-x).toInt8.toUInt8, none⟩ := by
  unfold sentMessage
  rw [if_pos ((neg_iff x).mpr hx)]

/-- INTERNAL: a descriptor is sent in the control message. -/
theorem sentMessage_nonneg {x : Int32} (hx : 0 ≤ x.toInt) : sentMessage x = ⟨0, 0, some x⟩ := by
  unfold sentMessage
  rw [if_neg (fun h => absurd ((neg_iff x).mp h) (not_lt.mpr hx))]

/-- INTERNAL: with memory and a socket that takes the two bytes the message is sent. -/
theorem send_fd_eq (x : Int32) : send_fd true (fun _ => 2) x = (0, some (sentMessage x)) := by
  unfold send_fd
  rw [if_neg (fun h => h.2 rfl), if_neg (not_not_intro rfl)]

/-- **The stream of a report.** `send_err` with the code `-c` writes the text and sends the
two bytes NUL and `c` without control message.
SRCLINE: sendrecv_fd.c:7-18 -/
theorem send_err_stream (m : CString) (c : UInt8) (hc : c ≠ 0) :
    send_err true (fun _ => 2) (fun bs => bs.length) (-Int32.ofNat c.toNat) m =
      (0, m.bytes, some ⟨0, c, none⟩) := by
  have hlt : c.toNat < 256 := c.toNat_lt
  have hpos : c.toNat ≠ 0 := fun h => hc (UInt8.toNat_inj.mp h)
  have hnat : (Int32.ofNat c.toNat).toInt = c.toNat :=
    Int32.toInt_ofNat_of_lt (by omega)
  have hint : (-Int32.ofNat c.toNat).toInt = -c.toNat := by
    rw [Int32.toInt_neg, hnat, Int.bmod_eq_of_le (by omega) (by omega)]
  have hneg : ¬0 ≤ -Int32.ofNat c.toNat := by
    rw [Int32.le_iff_toInt_le, hint]
    show ¬(0 : ℤ) ≤ _
    omega
  have hcode : (- -Int32.ofNat c.toNat).toInt8.toUInt8 = c := by
    apply UInt8.toNat_inj.mp
    have h := toNat_code (-Int32.ofNat c.toNat)
    rw [hint] at h
    omega
  have hsent := sentMessage_neg (x := -Int32.ofNat c.toNat) (by omega)
  rw [hcode] at hsent
  have hwrite : ¬(0 < m.length ∧ (m.bytes.length : ℤ) ≠ m.length) := fun h => h.2 rfl
  unfold send_err
  dsimp only
  rw [if_neg hwrite, if_neg hneg, send_fd_eq, hsent]
  rfl

/-! ## One delivery -/

section Deliveries

variable (userfunc : List (List UInt8) → List UInt8 → ℤ) (stale : Int32)

/-- `send_fd` and then `recv_fd` at the other end. -/
def transfer (x : Int32) : Result :=
  recv_fd userfunc (((send_fd true (fun _ => 2) x).2.map fun sent =>
    Turn.received (deliver sent stale)).toList)

/-- INTERNAL: the message is sent and delivered. -/
theorem transfer_eq (x : Int32) :
    transfer userfunc stale x =
      recv_fd userfunc [.received (deliver (sentMessage x) stale)] := by
  unfold transfer
  rw [send_fd_eq]
  rfl

/-- INTERNAL: nothing is passed on of a piece that holds NUL and code only. -/
theorem scan_pair {msg : Received} {c : UInt8} {l l' : Locals}
    (hstatus : readStatus msg 1 [c] l = .ok l') (hnr : l.nr = 2) (hnr' : l'.nr = 0)
    (hdone : 0 ≤ l'.status) :
    scan userfunc msg [0, c] 0 l = .error ⟨.returns l'.newfd, l'.passed⟩ := by
  have hlt : ((0 : ℕ) : ℤ) < l.nr := by
    rw [hnr]
    decide
  have hpass : passOn userfunc msg l' = .ok l' := by
    unfold passOn
    rw [if_neg (by omega)]
    rfl
  rw [scan_cons hlt, if_pos rfl, hstatus, ok_bind, hpass, ok_bind, if_pos hdone]

/-- INTERNAL: a code that is not zero is returned with its sign back. -/
theorem recv_fd_code {c : UInt8} (hc : c ≠ 0) (control : Option Int32) :
    recv_fd userfunc [.received (deliver ⟨0, c, control⟩ stale)] =
      ⟨.returns (-c.toNat), []⟩ :=
  loop_of_error (scan_pair userfunc (readStatus_code hc rfl) rfl rfl (Int.natCast_nonneg _))

/-- INTERNAL: a code zero with a control message gives the descriptor. -/
theorem recv_fd_descriptor (x : Int32) :
    recv_fd userfunc [.received (deliver ⟨0, 0, some x⟩ stale)] = ⟨.returns x.toInt, []⟩ := by
  have hstatus : readStatus (deliver ⟨0, 0, some x⟩ stale) 1 [0] ⟨2, -1, 0, []⟩ =
      .ok ⟨0, 0, x.toInt, []⟩ := rfl
  exact loop_of_error (scan_pair userfunc hstatus rfl rfl le_rfl)

/-- INTERNAL: a code zero without control message ends in `err_dump`. -/
theorem recv_fd_zero_code :
    recv_fd userfunc [.received (deliver ⟨0, 0, none⟩ stale)] =
      ⟨.ends .aborts "received code zero without fd", []⟩ :=
  loop_of_error rfl

/-! ## The round trip -/

/-- What the receiver should get for each `int` that `send_fd` is called with. -/
structure RoundTrips (x : Int32) : Prop where
  descriptor : 0 ≤ x.toInt → (transfer userfunc stale x).outcome = .returns x.toInt
  code : -255 ≤ x.toInt → x.toInt ≤ -1 →
    (transfer userfunc stale x).outcome = .returns x.toInt
  other : x.toInt < -255 →
    ∃ code, (transfer userfunc stale x).outcome = .returns code ∧ code < 0

/-- **Which error codes survive.** The receiver gets what it should exactly when the `int`
is not a negative multiple of 256.
SRCLINE: sendrecv_fd.c:31-52, sendrecv_fd.c:81-97 -/
theorem roundTrips_iff (x : Int32) :
    RoundTrips userfunc stale x ↔ ¬(x.toInt < 0 ∧ 256 ∣ x.toInt) := by
  have hbyte := toNat_code x
  constructor
  · rintro htrip ⟨hneg, hdvd⟩
    have hzero : (-x).toInt8.toUInt8 = 0 := by
      apply UInt8.toNat_inj.mp
      show _ = 0
      omega
    obtain ⟨code, houtcome, -⟩ := htrip.other (by omega)
    rw [transfer_eq, sentMessage_neg hneg, hzero, recv_fd_zero_code] at houtcome
    exact Outcome.noConfusion houtcome
  · intro h
    have hne : x.toInt < 0 → (-x).toInt8.toUInt8 ≠ 0 := by
      intro hneg hzero
      rw [hzero] at hbyte
      have hmod : (0 : ℤ) = -x.toInt % 256 := hbyte
      exact h ⟨hneg, by omega⟩
    constructor
    · intro hx
      rw [transfer_eq, sentMessage_nonneg hx, recv_fd_descriptor]
    · intro hlow hhigh
      have hneg : x.toInt < 0 := by omega
      have hcode : -((-x).toInt8.toUInt8.toNat : ℤ) = x.toInt := by omega
      rw [transfer_eq, sentMessage_neg hneg, recv_fd_code userfunc stale (hne hneg), hcode]
    · intro hlow
      have hneg : x.toInt < 0 := by omega
      have hpos : (-x).toInt8.toUInt8.toNat ≠ 0 := fun h0 =>
        hne hneg (UInt8.toNat_inj.mp h0)
      rw [transfer_eq, sentMessage_neg hneg, recv_fd_code userfunc stale (hne hneg)]
      exact ⟨_, rfl, by omega⟩

end Deliveries

/-- The code -256 ends the receiver. -/
theorem transfer_aborts :
    ¬∀ (userfunc : List (List UInt8) → List UInt8 → ℤ) (stale x : Int32),
      RoundTrips userfunc stale x := by
  intro hall
  have htrip := hall (fun _ range => range.length) 0 (-256)
  obtain ⟨code, houtcome, -⟩ := htrip.other (by decide)
  exact Outcome.noConfusion houtcome

end UbuntuProjects.SendrecvFd
