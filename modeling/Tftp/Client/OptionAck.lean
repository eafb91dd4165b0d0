import Tftp.Client.Request
import Tftp.OptionStrings

/-!
# What an OACK does to the options

`handle_oack_packet` writes the values of an OACK over those of the request as
it comes by them. Here its outcomes are told apart by what the OACK
acknowledges, and the options it leaves are put together in one place.
-/

namespace Tftp

/-- The number a table gives for an option. -/
def OptionTable.number (t : OptionTable) (memory : Bytes) (o : OptionKind) : Option ℕ :=
  (t.get o).map fun v => (strtoul (v.text memory)).value

namespace Client

open Prog Act

variable {L : Type}

namespace Request

variable (r : Request) (n : ℕ)

/-- The number an OACK of `n` bytes acknowledges for an option. -/
def acknowledged (o : OptionKind) : Option ℕ :=
  (acknowledgedOptions r n).1.number r.recvBuffer o

/-- Whether the timeout is adaptive after the OACK. -/
def keepsAdaptive : Bool := (acknowledgedOptions r n).2

/-- Some option is acknowledged that was not requested. -/
def Unrequested : Prop :=
  ∃ o, (acknowledgedOptions r n).1.isActive o = true ∧ r.options.active o = false

/-- The timeout after the OACK, in the width it is compared in. -/
def takenTimeout : UInt16 :=
  if r.keepsAdaptive n then r.options.timeoutS.toUInt16
  else (r.acknowledged n .timeout).elim r.options.timeoutS.toUInt16 UInt16.ofNat

/-- The options after an OACK that was accepted. -/
def taken : Options :=
  { r.options with
    useAdaptiveTimeout := r.keepsAdaptive n
    blockSize := (r.acknowledged n .blksize).elim r.options.blockSize UInt16.ofNat
    timeoutS := (r.takenTimeout n).toUInt8
    tsize := (r.acknowledged n .tsize).elim r.options.tsize UInt64.ofNat
    windowSize := (r.acknowledged n .windowsize).elim r.options.windowSize UInt16.ofNat
    active := fun o =>
      if o = .readType ∧ (acknowledgedOptions r n).1.isActive .readType = false then false
      else r.options.active o }

/-- The OACK changes the size of a block or of the window. -/
def Resizes : Prop :=
  (r.taken n).blockSize ≠ r.options.blockSize ∨ (r.taken n).windowSize ≠ r.options.windowSize

instance : Decidable (r.Resizes n) := by unfold Resizes; infer_instance

/-- The OACK changes the timeout. -/
def Retimes : Prop := r.takenTimeout n ≠ r.options.timeoutS.toUInt16

instance : Decidable (r.Retimes n) := by unfold Retimes; infer_instance

/-- Every option the OACK acknowledges was requested. -/
theorem requested_of_not (h : ¬r.Unrequested n) {o : OptionKind}
    (ho : (acknowledgedOptions r n).1.isActive o = true) : r.options.active o = true := by
  by_contra hn
  exact h ⟨o, ho, eq_false_of_ne_true hn⟩

end Request

/-! ## The loop over the options -/

section

variable {memory : Bytes} {options : Options} {ackd : OptionTable}

theorem containsUnrequested_apply (a : Acknowledged) (o : OptionKind) :
    (applyAcknowledged memory options ackd a o).containsUnrequestedOptions =
      (a.containsUnrequestedOptions || (ackd.isActive o && !options.active o)) := by
  unfold applyAcknowledged OptionTable.isActive
  by_cases hc : a.containsUnrequestedOptions = true
  · rw [if_pos hc, hc, Bool.true_or]
  · rw [if_neg hc, eq_false_of_ne_true hc]
    cases ackd.get o with
    | none => simp [hc]
    | some v =>
        by_cases ha : options.active o = false
        · simp [ha]
        · dsimp only
          rw [if_neg ha]
          cases o with
          | timeout =>
              dsimp only
              split <;> simp [hc, ha]
          | _ => simp [hc, ha]

theorem containsUnrequested_foldl (kinds : List OptionKind) (a : Acknowledged) :
    (kinds.foldl (applyAcknowledged memory options ackd) a).containsUnrequestedOptions =
      (a.containsUnrequestedOptions ||
        kinds.any fun o => ackd.isActive o && !options.active o) := by
  induction kinds generalizing a with
  | nil => simp
  | cons o kinds ih =>
      rw [List.foldl_cons, ih, containsUnrequested_apply, List.any_cons, Bool.or_assoc]

/-- What one requested option does to the values in force. -/
def Acknowledged.take (a : Acknowledged) (adaptive : Bool) (number : Option ℕ) :
    OptionKind → Acknowledged
  | .blksize => { a with blockSize := number.elim a.blockSize UInt16.ofNat }
  | .timeout =>
      { a with timeout := if adaptive then a.timeout else number.elim a.timeout UInt16.ofNat }
  | .tsize => { a with tsize := number.elim a.tsize UInt64.ofNat }
  | .windowsize => { a with windowSize := number.elim a.windowSize UInt16.ofNat }
  | .readType => a

theorem applyAcknowledged_requested {a : Acknowledged} {o : OptionKind}
    (ha : a.containsUnrequestedOptions = false)
    (h : ackd.isActive o = true → options.active o = true) :
    applyAcknowledged memory options ackd a o =
      a.take options.useAdaptiveTimeout (ackd.number memory o) o := by
  rw [applyAcknowledged, if_neg (by simp [ha]), OptionTable.number]
  cases hv : ackd.get o with
  | none => cases o <;> simp [Acknowledged.take]
  | some v =>
      have active : options.active o = true := h (by simp [OptionTable.isActive, hv])
      dsimp only
      rw [if_neg (by simp [active])]
      cases o with
      | timeout =>
          simp only [Acknowledged.take, Option.map_some, Option.elim_some]
          split <;> rfl
      | _ => rfl

/-- What the loop makes of them when all options it comes by were requested. -/
theorem foldl_requested {a : Acknowledged} (ha : a.containsUnrequestedOptions = false)
    (h : ∀ o, ackd.isActive o = true → options.active o = true) :
    OptionKind.all.foldl (applyAcknowledged memory options ackd) a =
      { blockSize := (ackd.number memory .blksize).elim a.blockSize UInt16.ofNat
        timeout := if options.useAdaptiveTimeout then a.timeout
          else (ackd.number memory .timeout).elim a.timeout UInt16.ofNat
        windowSize := (ackd.number memory .windowsize).elim a.windowSize UInt16.ofNat
        tsize := (ackd.number memory .tsize).elim a.tsize UInt64.ofNat } := by
  rcases a with ⟨blockSize, timeout, windowSize, tsize, contains⟩
  obtain rfl : contains = false := ha
  simp only [OptionKind.all, List.foldl_cons, List.foldl_nil]
  rw [applyAcknowledged_requested (o := .blksize) (h := h _),
    applyAcknowledged_requested (o := .timeout) (h := h _),
    applyAcknowledged_requested (o := .tsize) (h := h _),
    applyAcknowledged_requested (o := .windowsize) (h := h _),
    applyAcknowledged_requested (o := .readType) (h := h _)]
  all_goals rfl

end

/-! ## The outcomes -/

/-- The request after an OACK that was accepted; `heap` is what the memory that
`realloc` adds holds. -/
def Request.accept (r : Request) (n : ℕ) (heap : Bytes) : Request :=
  { r with
    options := r.taken n
    recvTimeout := if r.Retimes n then (r.taken n).timeoutS else r.recvTimeout
    recvBufferSize :=
      if r.Resizes n then packetBufferSize (r.taken n).blockSize else r.recvBufferSize
    recvBuffer := if r.Resizes n then r.recvBuffer ++ heap else r.recvBuffer }

theorem wp_takeSizes {a : Acknowledged} {w : World L} {Q : Bool → World L → Prop}
    {E : Outcome → World L → Prop}
    (keeps : a.blockSize = w.request.options.blockSize →
      a.windowSize = w.request.options.windowSize → Q true w)
    (resizes : (a.blockSize ≠ w.request.options.blockSize ∨
        a.windowSize ≠ w.request.options.windowSize) →
      ∀ r : Request, r = { w.request with
        options := { w.request.options with blockSize := a.blockSize, windowSize := a.windowSize }
        recvBufferSize := packetBufferSize a.blockSize } →
      (r.requestType = .put → E .crash { w with request := r }) ∧
      (r.requestType = .get → w.answer = false → Q false { w.answered with request := r }) ∧
      (r.requestType = .get → w.answer = true →
        Q true { w.answered with request := { r with recvBuffer := r.recvBuffer ++ w.sys.heap } })) :
    wp (takeSizes a) Q E w := by
  rw [takeSizes, wp_bind, wp_request]
  refine wp_ite.mpr ⟨fun changed => ?_, fun same => ?_⟩
  · obtain ⟨put, unmoved, moved⟩ := resizes changed _ rfl
    rw [wp_bind, wp_modify]
    refine wp_ite.mpr ⟨put, fun hget => ?_⟩
    have get : w.request.requestType = .get := by
      cases h : w.request.requestType with
      | get => rfl
      | put => exact (hget h).elim
    rw [wp_bind, wp_attempt]
    exact wp_ite.mpr ⟨unmoved get, fun answer => moved get (eq_true_of_ne_false answer)⟩
  · simp only [not_or, not_not] at same
    exact keeps same.1 same.2

theorem wp_takeTimeout {a : Acknowledged} {w : World L} {Q : Bool → World L → Prop}
    {E : Outcome → World L → Prop}
    (keeps : (w.request.options.useAdaptiveTimeout = true ∨
      a.timeout = w.request.options.timeoutS.toUInt16) → Q true w)
    (retimes : w.request.options.useAdaptiveTimeout = false →
      a.timeout ≠ w.request.options.timeoutS.toUInt16 →
      ∀ r : Request, r = { w.request with
        options := { w.request.options with timeoutS := a.timeout.toUInt8 } } →
      (w.answer = false → Q false { w.answered with request := r }) ∧
      (w.answer = true →
        Q true { w.answered with request := { r with recvTimeout := a.timeout.toUInt8 } })) :
    wp (takeTimeout a) Q E w := by
  rw [takeTimeout, wp_bind, wp_request]
  refine wp_ite.mpr ⟨fun ⟨fixed, changed⟩ => ?_, fun same => ?_⟩
  · obtain ⟨unset, set⟩ := retimes fixed changed _ rfl
    rw [wp_bind, wp_modify, wp_bind, wp_attempt]
    exact wp_ite.mpr ⟨unset, fun answer => set (eq_true_of_ne_false answer)⟩
  · apply keeps
    by_contra h
    simp only [not_or, Bool.not_eq_true] at h
    exact same h

/-! ## What an OACK leaves alone -/

/-- From `w` to `t` at most the options, the timeout of the socket and the
receive buffer have changed. -/
structure LeavesRest (w t : World L) : Prop where
  request : ∃ options recvTimeout recvBufferSize recvBuffer, t.request =
    { w.request with options, recvTimeout, recvBufferSize, recvBuffer }
  locals : t.locals = w.locals

namespace LeavesRest

variable {u v w t : World L}

theorem of_eq (hr : t.request = w.request) (hl : t.locals = w.locals) : LeavesRest w t :=
  ⟨⟨_, _, _, _, hr⟩, hl⟩

theorem trans (h : LeavesRest u v) (h' : LeavesRest v w) : LeavesRest u w := by
  obtain ⟨⟨_, _, _, _, hr⟩, hl⟩ := h
  obtain ⟨⟨_, _, _, _, hr'⟩, hl'⟩ := h'
  rw [hr] at hr'
  exact ⟨⟨_, _, _, _, hr'⟩, hl'.trans hl⟩

theorem takeSizes (a : Acknowledged) (w : World L) :
    wp (takeSizes a) (fun _ t => LeavesRest w t) (fun o t => o = .crash ∧ LeavesRest w t) w := by
  apply wp_takeSizes
  · exact fun _ _ => .of_eq rfl rfl
  · rintro - r rfl
    refine ⟨fun _ => ⟨rfl, ?_⟩, fun _ _ => ?_, fun _ _ => ?_⟩
    · exact ⟨⟨_, _, _, _, rfl⟩, rfl⟩
    · exact ⟨⟨_, _, _, _, rfl⟩, rfl⟩
    · exact ⟨⟨_, _, _, _, rfl⟩, rfl⟩

theorem takeTimeout (a : Acknowledged) (w : World L) :
    wp (takeTimeout a) (fun _ t => LeavesRest w t) (fun o t => o = .crash ∧ LeavesRest w t) w := by
  apply wp_takeTimeout
  · exact fun _ => .of_eq rfl rfl
  · rintro - - r rfl
    refine ⟨fun _ => ?_, fun _ => ?_⟩
    · exact ⟨⟨_, _, _, _, rfl⟩, rfl⟩
    · exact ⟨⟨_, _, _, _, rfl⟩, rfl⟩

/-- An OACK changes nothing else, and stops the client only with a crash. -/
theorem handleOackPacket (n : ℕ) (w : World L) :
    wp (handleOackPacket n) (fun _ t => LeavesRest w t) (fun o t => o = .crash ∧ LeavesRest w t)
      w := by
  unfold Client.handleOackPacket takeAcknowledged
  rw [wp_bind, wp_request, wp_bind, wp_modify]
  generalize acknowledged w.request.recvBuffer
    { w.request.options with useAdaptiveTimeout := (acknowledgedOptions w.request n).2 }
    (acknowledgedOptions w.request n).1 = a
  refine wp_ite.mpr ⟨fun _ => ?_, fun _ => ?_⟩
  · rw [wp_bind, wp_sendError]
    refine ⟨fun _ => ?_, fun _ => ?_⟩
    · exact ⟨⟨_, _, _, _, rfl⟩, rfl⟩
    · exact ⟨⟨_, _, _, _, rfl⟩, rfl⟩
  -- the options were taken over before the sizes and the timeout are
  generalize hv : ({ w with request := _ } : World L) = v
  have entered : LeavesRest w v := by
    rw [← hv]
    exact ⟨⟨_, _, _, _, rfl⟩, rfl⟩
  refine wp_bind.mpr (wp_mono (takeSizes a v) (fun resized t sized => ?_)
    fun _ _ crashed => ⟨crashed.1, entered.trans crashed.2⟩)
  have sized := entered.trans sized
  refine wp_ite.mpr ⟨fun _ => sized, fun _ => ?_⟩
  refine wp_bind.mpr (wp_mono (takeTimeout a t) (fun set u timed => ?_)
    fun _ _ crashed => ⟨crashed.1, sized.trans crashed.2⟩)
  have timed := sized.trans timed
  refine wp_ite.mpr ⟨fun _ => timed, fun _ => ?_⟩
  rw [wp_bind, wp_modify]
  exact timed.trans ⟨⟨_, _, _, _, rfl⟩, rfl⟩

end LeavesRest

/-- The ways in which `handle_oack_packet` ends. -/
inductive Oack (w : World L) (n : ℕ) : Except Outcome Bool → World L → Prop where
  | unrequested {t : World L} (tsize : UInt64) (reported : Bool) :
      w.request.Unrequested n →
      t.request = { w.request with
        options := { w.request.options with
          useAdaptiveTimeout := w.request.keepsAdaptive n, tsize := tsize } } →
      t.sent = w.sent ++
        (if reported then [(w.request.serverAddr, .packet invalidOptionsPacket)] else []) →
      Oack w n (.ok false) t
  | onStack {t : World L} :
      ¬w.request.Unrequested n → w.request.Resizes n → w.request.requestType = .put →
      t.sent = w.sent → Oack w n (.error .crash) t
  | unmoved {t : World L} :
      ¬w.request.Unrequested n → w.request.Resizes n → w.request.requestType = .get →
      w.answer = false → t.sent = w.sent → Oack w n (.ok false) t
  | untimed {t : World L} :
      ¬w.request.Unrequested n → (w.request.Resizes n → w.request.requestType = .get) →
      w.request.Retimes n →
      (if w.request.Resizes n then w.answered else w).answer = false →
      t.request = { w.request.accept n w.sys.heap with
        options := { w.request.taken n with active := w.request.options.active }
        recvTimeout := w.request.recvTimeout } →
      t.sent = w.sent → Oack w n (.ok false) t
  | accepted {t : World L} :
      ¬w.request.Unrequested n →
      (w.request.Resizes n → w.request.requestType = .get ∧ w.answer = true) →
      (w.request.Retimes n →
        (if w.request.Resizes n then w.answered else w).answer = true) →
      t.request = w.request.accept n w.sys.heap → t.sent = w.sent → t.locals = w.locals →
      Oack w n (.ok true) t

/-- The flag the loop of `handle_oack_packet` leaves. -/
theorem containsUnrequested_iff (r : Request) (n : ℕ) (b : Bool) (a : Acknowledged)
    (ha : a.containsUnrequestedOptions = false) :
    (OptionKind.all.foldl (applyAcknowledged r.recvBuffer
      { r.options with useAdaptiveTimeout := b } (acknowledgedOptions r n).1)
        a).containsUnrequestedOptions = true ↔ r.Unrequested n := by
  rw [containsUnrequested_foldl, ha, Bool.false_or, List.any_eq_true]
  constructor
  · rintro ⟨o, -, h⟩
    simp only [Bool.and_eq_true, Bool.not_eq_true'] at h
    exact ⟨o, h⟩
  · rintro ⟨o, h⟩
    refine ⟨o, by cases o <;> simp [OptionKind.all], ?_⟩
    simpa using h

/-- The request after the sizes of an OACK were taken. -/
def Request.sized (r : Request) (n : ℕ) (heap : Bytes) : Request :=
  { r.accept n heap with
    recvTimeout := r.recvTimeout
    options := { r.taken n with timeoutS := r.options.timeoutS, active := r.options.active } }

theorem toUInt8_toUInt16 (t : UInt8) : t.toUInt16.toUInt8 = t := by simp

/-- After its sizes, an OACK sets the timeout and withdraws the listing. -/
theorem takeTimeout_outcome {n : ℕ} {w v : World L} {a : Acknowledged}
    (requested : ¬w.request.Unrequested n)
    (moved : w.request.Resizes n → w.request.requestType = .get ∧ w.answer = true)
    (answer : v.answer = (if w.request.Resizes n then w.answered else w).answer)
    (hr : v.request = w.request.sized n w.sys.heap) (hs : v.sent = w.sent)
    (hl : v.locals = w.locals) (ha : a.timeout = w.request.takenTimeout n) :
    wp (do
      let set ← takeTimeout a
      if set = false then pure false
      else do
        modify fun r => { r with options := { r.options with
          active := fun o =>
            if o = .readType ∧
              (acknowledgedOptions w.request n).1.isActive .readType = false then false
            else r.options.active o } }
        pure true)
      (fun b t => Oack w n (.ok b) t) (fun o t => Oack w n (.error o) t) v := by
  rw [wp_bind]
  apply wp_takeTimeout
  · intro same
    refine wp_ite.mpr ⟨fun h => absurd h (by decide), fun _ => ?_⟩
    have keeps : ¬w.request.Retimes n := by
      rw [hr] at same
      rcases same with adaptive | same
      · exact fun h => h (if_pos adaptive)
      · exact fun h => h (ha.symm.trans same)
    have timeout : (w.request.takenTimeout n).toUInt8 = w.request.options.timeoutS := by
      rw [not_not.mp keeps, toUInt8_toUInt16]
    refine .accepted requested moved (fun h => (keeps h).elim) ?_ hs hl
    simp only [hr, Request.sized, Request.accept, if_neg keeps, Request.taken, timeout]
  · rintro fixed changed r rfl
    have retimes : w.request.Retimes n := by
      rw [hr] at changed
      exact fun h => changed (ha.trans h)
    refine ⟨fun unset => ?_, fun set => ?_⟩
    · refine wp_ite.mpr ⟨fun _ => ?_, fun h => absurd rfl h⟩
      refine .untimed requested (fun h => (moved h).1) retimes (answer ▸ unset) ?_ hs
      simp only [hr, ha, Request.sized, Request.accept, Request.taken]
    · refine wp_ite.mpr ⟨fun h => absurd h (by decide), fun _ => ?_⟩
      refine .accepted requested moved (fun _ => answer ▸ set) ?_ hs hl
      simp only [hr, ha, Request.sized, Request.accept, if_pos retimes, Request.taken]

theorem handleOackPacket_outcome (n : ℕ) (w : World L) :
    wp (handleOackPacket n) (fun b t => Oack w n (.ok b) t) (fun o t => Oack w n (.error o) t)
      w := by
  unfold handleOackPacket takeAcknowledged acknowledged
  rw [wp_bind, wp_request]
  generalize hfold : OptionKind.all.foldl (applyAcknowledged w.request.recvBuffer
    { w.request.options with useAdaptiveTimeout := (acknowledgedOptions w.request n).2 }
    (acknowledgedOptions w.request n).1)
      { blockSize := w.request.options.blockSize
        timeout := w.request.options.timeoutS.toUInt16
        windowSize := w.request.options.windowSize
        tsize := w.request.options.tsize } = a
  have flag := containsUnrequested_iff w.request n (acknowledgedOptions w.request n).2
    { blockSize := w.request.options.blockSize
      timeout := w.request.options.timeoutS.toUInt16
      windowSize := w.request.options.windowSize
      tsize := w.request.options.tsize } rfl
  rw [hfold] at flag
  simp only [hfold]
  rw [wp_bind, wp_modify]
  refine wp_ite.mpr ⟨fun rejected => ?_, fun requested => ?_⟩
  · rw [wp_bind, wp_sendError]
    refine ⟨fun answer => ?_, fun answer => ?_⟩
    · exact .unrequested a.tsize true (flag.mp rejected) rfl rfl
    · exact .unrequested a.tsize false (flag.mp rejected) rfl (List.append_nil _).symm
  · have unrequested : ¬w.request.Unrequested n := fun h => requested (flag.mpr h)
    have values := hfold.symm.trans
      (foldl_requested rfl fun o => w.request.requested_of_not n unrequested)
    have blockSize : a.blockSize = (w.request.taken n).blockSize := by rw [values]; rfl
    have windowSize : a.windowSize = (w.request.taken n).windowSize := by rw [values]; rfl
    have timeout : a.timeout = w.request.takenTimeout n := by rw [values]; rfl
    have tsize : a.tsize = (w.request.taken n).tsize := by rw [values]; rfl
    rw [tsize, wp_bind]
    apply wp_takeSizes
    · intro sameBlock sameWindow
      have keeps : ¬w.request.Resizes n := by
        rw [Request.Resizes, ← blockSize, ← windowSize]
        exact fun h => h.elim (fun h => h sameBlock) fun h => h sameWindow
      refine wp_ite.mpr ⟨fun h => absurd h (by decide), fun _ => ?_⟩
      refine takeTimeout_outcome unrequested (fun h => (keeps h).elim) ?_ ?_ rfl rfl timeout
      · rw [if_neg keeps]
        rfl
      · have block : (w.request.taken n).blockSize = w.request.options.blockSize :=
          blockSize.symm.trans sameBlock
        have window : (w.request.taken n).windowSize = w.request.options.windowSize :=
          windowSize.symm.trans sameWindow
        simp only [Request.sized, Request.accept, if_neg keeps, block, window]
        rfl
    · rintro changed r rfl
      have resizes : w.request.Resizes n := by
        rw [Request.Resizes, ← blockSize, ← windowSize]
        exact changed
      refine ⟨fun put => .onStack unrequested resizes put rfl, fun get answer => ?_,
        fun get answer => ?_⟩
      · refine wp_ite.mpr ⟨fun _ => ?_, fun h => absurd rfl h⟩
        exact .unmoved unrequested resizes get answer rfl
      · refine wp_ite.mpr ⟨fun h => absurd h (by decide), fun _ => ?_⟩
        refine takeTimeout_outcome unrequested (fun _ => ⟨get, answer⟩) ?_ ?_ rfl rfl timeout
        · rw [if_pos resizes]
          rfl
        · simp only [Request.sized, Request.accept, if_pos resizes, blockSize, windowSize]
          rfl

end Client

end Tftp
