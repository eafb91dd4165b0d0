import Tftp.Wire

/-!
# The dispatcher

`dispatcher.c` over a ring of liburing. An entry is taken from the submission
queue, prepared and handed to the kernel; where the kernel takes less than the
queue holds, the rest waits for the next submission. The completion of a
request is reaped once.
-/

namespace Tftp.Server

/-- `struct dispatcher_event *` -/
abbrev EventPtr := ℕ

/-- `struct __kernel_timespec` -/
structure Timespec where
  seconds : ℤ
  nanoseconds : ℤ
deriving DecidableEq, Repr

/-- What the preparation of an entry asks for. -/
inductive Prepared where
  | nop
  | timeout (timeout : Timespec)
  | timeoutUpdate (target : EventPtr) (timeout : Timespec)
  | timeoutRemove (target : EventPtr)
  | read (fd nBytes : ℕ)
  | recvmsg (fd flags : ℕ)
  | sendto (fd : ℕ) (buf : Bytes) (flags : ℕ) (addr : Address)
  | cancel (target : EventPtr)
deriving DecidableEq, Repr

/-- A request with its user data. -/
structure Sqe where
  prepared : Prepared
  data : Option EventPtr
deriving DecidableEq, Repr

/-- `struct dispatcher`: the entries that were prepared and not submitted, the
requests that were submitted and not reaped, and the counter of eight bits. -/
structure Dispatcher where
  maxRequests : ℕ
  queued : List Sqe := []
  outstanding : List Sqe := []
  pendingRequests : UInt8 := 0
deriving DecidableEq, Repr

/-- What `io_uring_submit` returns: the number of entries it has submitted, or
an error. -/
abbrev SubmitAnswer := Except ℕ ℕ

/-- `dispatcher_init`, once the ring is there. -/
def dispatcherInit (maxRequests : ℕ) : Dispatcher := { maxRequests := maxRequests }

namespace Dispatcher

/-- `io_uring_get_sqe` finds an entry. -/
def hasSqe (d : Dispatcher) : Bool := d.queued.length < d.maxRequests

/-- The body of the eight functions that submit a request. -/
def submit (d : Dispatcher) (prepared : Prepared) (event : Option EventPtr) (answer : SubmitAnswer) :
    Bool × Dispatcher :=
  if !d.hasSqe then (false, d)
  else
    let queued := d.queued ++ [⟨prepared, event⟩]
    match answer with
    | .error _ => (false, { d with queued := queued })
    | .ok n =>
        (true,
          { d with
            queued := queued.drop n
            outstanding := d.outstanding ++ queued.take n
            pendingRequests := d.pendingRequests + 1 })

end Dispatcher

/-- `dispatcher_submit`; the event may be `nullptr`. -/
def dispatcherSubmit (d : Dispatcher) (event : Option EventPtr) : SubmitAnswer → Bool × Dispatcher :=
  d.submit .nop event

/-- `dispatcher_submit_timeout` -/
def dispatcherSubmitTimeout (d : Dispatcher) (event : EventPtr) (timeout : Timespec) :
    SubmitAnswer → Bool × Dispatcher :=
  d.submit (.timeout timeout) (some event)

/-- `dispatcher_submit_timeout_update` -/
def dispatcherSubmitTimeoutUpdate (d : Dispatcher) (event eventToUpdate : EventPtr)
    (timeout : Timespec) : SubmitAnswer → Bool × Dispatcher :=
  d.submit (.timeoutUpdate eventToUpdate timeout) (some event)

/-- `dispatcher_submit_timeout_cancel` -/
def dispatcherSubmitTimeoutCancel (d : Dispatcher) (event eventToCancel : EventPtr) :
    SubmitAnswer → Bool × Dispatcher :=
  d.submit (.timeoutRemove eventToCancel) (some event)

/-- `dispatcher_submit_read` -/
def dispatcherSubmitRead (d : Dispatcher) (event : EventPtr) (fd nBytes : ℕ) :
    SubmitAnswer → Bool × Dispatcher :=
  d.submit (.read fd nBytes) (some event)

/-- `dispatcher_submit_recvmsg` -/
def dispatcherSubmitRecvmsg (d : Dispatcher) (event : EventPtr) (fd flags : ℕ) :
    SubmitAnswer → Bool × Dispatcher :=
  d.submit (.recvmsg fd flags) (some event)

/-- `dispatcher_submit_sendto` -/
def dispatcherSubmitSendto (d : Dispatcher) (event : EventPtr) (fd : ℕ) (buf : Bytes) (flags : ℕ)
    (addr : Address) : SubmitAnswer → Bool × Dispatcher :=
  d.submit (.sendto fd buf flags addr) (some event)

/-- `dispatcher_submit_cancel` -/
def dispatcherSubmitCancel (d : Dispatcher) (event : Option EventPtr) (eventToCancel : EventPtr) :
    SubmitAnswer → Bool × Dispatcher :=
  d.submit (.cancel eventToCancel) event

/-- A call of one of the eight functions. -/
inductive Submission where
  | submit (event : Option EventPtr)
  | timeout (event : EventPtr) (timeout : Timespec)
  | timeoutUpdate (event eventToUpdate : EventPtr) (timeout : Timespec)
  | timeoutCancel (event eventToCancel : EventPtr)
  | read (event : EventPtr) (fd nBytes : ℕ)
  | recvmsg (event : EventPtr) (fd flags : ℕ)
  | sendto (event : EventPtr) (fd : ℕ) (buf : Bytes) (flags : ℕ) (addr : Address)
  | cancel (event : Option EventPtr) (eventToCancel : EventPtr)
deriving DecidableEq, Repr

def Submission.call (d : Dispatcher) : Submission → SubmitAnswer → Bool × Dispatcher
  | .submit event => dispatcherSubmit d event
  | .timeout event period => dispatcherSubmitTimeout d event period
  | .timeoutUpdate event target period => dispatcherSubmitTimeoutUpdate d event target period
  | .timeoutCancel event target => dispatcherSubmitTimeoutCancel d event target
  | .read event fd nBytes => dispatcherSubmitRead d event fd nBytes
  | .recvmsg event fd flags => dispatcherSubmitRecvmsg d event fd flags
  | .sendto event fd buf flags addr => dispatcherSubmitSendto d event fd buf flags addr
  | .cancel event target => dispatcherSubmitCancel d event target

/-- What is written into an event: its result, or the number of its error. -/
abbrev EventResult := Except ℕ ℕ

/-- `dispatcher_wait_event`: `io_uring_wait_cqe` fails, or it finds the
completion of one of the outstanding requests, with the value of `res`. -/
def dispatcherWaitEvent (d : Dispatcher) (answer : Except ℕ (ℕ × ℤ)) :
    Except ℕ (Option (EventPtr × EventResult) × Dispatcher) :=
  match answer with
  | .error errno => .error errno
  | .ok (i, res) =>
      let event := (d.outstanding[i]?).bind (·.data)
      let result : EventResult := if res < 0 then .error res.natAbs else .ok res.toNat
      .ok (event.map (·, result),
        { d with
          outstanding := d.outstanding.eraseIdx i
          pendingRequests := d.pendingRequests - 1 })

/-! ## The counter -/

namespace Dispatcher

/-- The counter is the number of outstanding requests. -/
def Exact (d : Dispatcher) : Prop := d.pendingRequests.toNat = d.outstanding.length

theorem exact_init (maxRequests : ℕ) : (dispatcherInit maxRequests).Exact := rfl

/-- Whatever is submitted, the counter goes by the answer of `io_uring_submit`
alone. -/
theorem call_eq (s : Submission) (d : Dispatcher) (answer : SubmitAnswer) :
    ∃ prepared event, s.call d answer = d.submit prepared event answer := by
  cases s <;> exact ⟨_, _, rfl⟩

/-- The kernel takes no more than the queue holds. -/
def Possible (d : Dispatcher) (answer : SubmitAnswer) : Prop :=
  ∀ n, answer = .ok n → n ≤ d.queued.length + 1

instance (d : Dispatcher) (answer : SubmitAnswer) : Decidable (d.Possible answer) := by
  unfold Possible
  cases answer with
  | error e => exact isTrue (by simp)
  | ok n => exact decidable_of_iff (n ≤ d.queued.length + 1) (by simp)

/-- A submission that succeeds hands over its own request and nothing else, and
at most 254 requests are outstanding before it. -/
def Countable (d : Dispatcher) (answer : SubmitAnswer) : Prop :=
  d.hasSqe = true → ∀ n, answer = .ok n → n = 1 ∧ d.outstanding.length < 255

instance (d : Dispatcher) : ∀ answer, Decidable (d.Countable answer)
  | .error _ => isTrue fun _ _ failed => by cases failed
  | .ok n => decidable_of_iff (d.hasSqe = true → n = 1 ∧ d.outstanding.length < 255)
      ⟨fun h room _ same => Except.ok.inj same ▸ h room, fun h room => h room n rfl⟩

variable {d : Dispatcher}

theorem length_outstanding_submit {prepared : Prepared} {event : Option EventPtr} {n : ℕ}
    (possible : d.Possible (.ok n)) (room : d.hasSqe = true) :
    (d.submit prepared event (.ok n)).2.outstanding.length = d.outstanding.length + n := by
  have le := possible n rfl
  unfold submit
  rw [if_neg (by simp [room])]
  simp only [List.length_append, List.length_take, List.length_cons, List.length_nil]
  omega

/-- A submission keeps the counter exact if and only if it can be counted. -/
theorem exact_submit_iff (h : d.Exact) (prepared : Prepared) (event : Option EventPtr)
    {answer : SubmitAnswer} (possible : d.Possible answer) :
    (d.submit prepared event answer).2.Exact ↔ d.Countable answer := by
  by_cases room : d.hasSqe = true
  swap
  · have unchanged : (d.submit prepared event answer).2 = d := by
      rw [submit, if_pos (by simpa using room)]
    rw [unchanged]
    exact iff_of_true h fun available => absurd available room
  cases answer with
  | error e =>
      have same : (d.submit prepared event (.error e)).2.Exact := by
        rw [submit, if_neg (by simp [room])]
        exact h
      exact iff_of_true same fun _ n failed => by cases failed
  | ok n =>
      have outstanding := @length_outstanding_submit _ prepared event _ possible room
      have counter : (d.submit prepared event (.ok n)).2.pendingRequests =
          d.pendingRequests + 1 := by
        rw [submit, if_neg (by simp [room])]
      have before : d.pendingRequests.toNat = d.outstanding.length := h
      have bound := d.pendingRequests.toNat_lt
      have added : (d.pendingRequests + 1).toNat = (d.pendingRequests.toNat + 1) % 256 := rfl
      unfold Exact Countable
      rw [outstanding, counter, added]
      constructor
      · intro exact_ _ m answered
        cases answered
        omega
      · intro countable
        have := countable room n rfl
        omega

/-- A reaped completion keeps it exact. -/
theorem exact_reap {i : ℕ} {res : ℤ} {reaped : Option (EventPtr × EventResult) × Dispatcher}
    (h : d.Exact) (present : i < d.outstanding.length)
    (hr : dispatcherWaitEvent d (.ok (i, res)) = .ok reaped) : reaped.2.Exact := by
  obtain rfl := (Except.ok.inj hr).symm
  have before : d.pendingRequests.toNat = d.outstanding.length := h
  have less : (1 : UInt8) ≤ d.pendingRequests := by
    rw [UInt8.le_iff_toNat_le]
    change 1 ≤ d.pendingRequests.toNat
    omega
  change (d.pendingRequests - 1).toNat = (d.outstanding.eraseIdx i).length
  rw [UInt8.toNat_sub_of_le _ _ less, List.length_eraseIdx_of_lt present, before]
  rfl

end Dispatcher

end Tftp.Server
