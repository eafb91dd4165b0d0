import Tftp.Client.Settings

/-!
# Options that are not acknowledged

`options_init` puts the requested values where the values in force are kept, so
an option that the OACK leaves out stays as it was requested.
-/

namespace Tftp.Client

open Prog Act

/-! ## What an OACK calls for -/

/-- The timeout in force; an adaptive one has no value. -/
def Options.timeout (x : Options) : Option UInt8 :=
  if x.useAdaptiveTimeout then none else some x.timeoutS

/-- The OACK of `n` bytes carries the adaptive timeout that was requested. -/
def CarriesAdaptive (ty : RequestType) (o : ClientOptions) (r : Request) (n : ℕ) : Prop :=
  o.isAdaptiveTimeoutRequired ty = true ∧ hasAdaptiveTimeout r.recvBuffer 2 (n - 2) = true

instance (ty : RequestType) (o : ClientOptions) (r : Request) (n : ℕ) :
    Decidable (CarriesAdaptive ty o r n) := by unfold CarriesAdaptive; infer_instance

/-- Each requested option has the value the OACK carries, or else its default:
for the size, that nothing is compared after a read. -/
structure Honours (ty : RequestType) (o : ClientOptions) (r : Request) (n : ℕ) (x : Options) :
    Prop where
  blksize : (optionsInit ty o).active .blksize = true →
    x.blockSize = (r.acknowledged n .blksize).elim defaultBlksize UInt16.ofNat
  timeout : (optionsInit ty o).active .timeout = true →
    x.timeout = if CarriesAdaptive ty o r n then none
      else some ((r.acknowledged n .timeout).elim defaultTimeoutS UInt8.ofNat)
  tsize : (optionsInit ty o).active .tsize = true →
    (r.acknowledged n .tsize).elim (ty = .get → x.useTsize = false) fun k =>
      x.tsize = UInt64.ofNat k
  windowsize : (optionsInit ty o).active .windowsize = true →
    x.windowSize = (r.acknowledged n .windowsize).elim defaultWindowSize UInt16.ofNat
  readType : (optionsInit ty o).active .readType = true →
    r.acknowledged n .readType = none → x.active .readType = false

/-- Each option the OACK leaves out was requested at its default, and the size
of a read is not left out; an upload with an adaptive timeout requests none. -/
structure OmitsDefaults (ty : RequestType) (o : ClientOptions) (r : Request) (n : ℕ) : Prop where
  blksize : (optionsInit ty o).active .blksize = true → r.acknowledged n .blksize = none →
    (optionsInit ty o).blockSize = defaultBlksize
  timeout : (optionsInit ty o).active .timeout = true → ¬CarriesAdaptive ty o r n →
    r.acknowledged n .timeout = none → (optionsInit ty o).timeoutS = defaultTimeoutS
  upload : ty = .put → o.useAdaptiveTimeout = true → (optionsInit ty o).active .timeout = false
  tsize : ty = .get → (optionsInit ty o).active .tsize = true → r.acknowledged n .tsize ≠ none
  windowsize : (optionsInit ty o).active .windowsize = true →
    r.acknowledged n .windowsize = none → (optionsInit ty o).windowSize = defaultWindowSize

section

variable {ty : RequestType} {o : ClientOptions} {r : Request} {n : ℕ}

/-- Whether the timeout is adaptive after the OACK. -/
theorem keepsAdaptive_eq (hr : r.options = optionsInit ty o) (hty : r.requestType = ty) :
    r.keepsAdaptive n = true ↔
      CarriesAdaptive ty o r n ∨ (ty = .put ∧ o.useAdaptiveTimeout = true) := by
  have use : r.options.useAdaptiveTimeout = o.useAdaptiveTimeout := by rw [hr]; rfl
  unfold Request.keepsAdaptive acknowledgedOptions CarriesAdaptive
    ClientOptions.isAdaptiveTimeoutRequired
  rw [use, hty]
  cases o.useAdaptiveTimeout with
  | false => simp
  | true =>
      cases ty with
      | put => simp
      | get => cases h : hasAdaptiveTimeout r.recvBuffer 2 (n - 2) <;> simp

/-- What is left of the timeout. -/
theorem timeout_taken (hr : r.options = optionsInit ty o) (hty : r.requestType = ty) :
    (r.taken n).timeout =
      if CarriesAdaptive ty o r n ∨ (ty = .put ∧ o.useAdaptiveTimeout = true) then none
      else some ((r.acknowledged n .timeout).elim (optionsInit ty o).timeoutS UInt8.ofNat) := by
  have adaptive := keepsAdaptive_eq (n := n) hr hty
  have use : (r.taken n).useAdaptiveTimeout = r.keepsAdaptive n := rfl
  have value : (r.taken n).timeoutS = (r.takenTimeout n).toUInt8 := rfl
  rw [Options.timeout, use, value, Request.takenTimeout]
  cases hk : r.keepsAdaptive n with
  | true => rw [if_pos rfl, if_pos (adaptive.mp hk)]
  | false =>
      have fixed : ¬(CarriesAdaptive ty o r n ∨ (ty = .put ∧ o.useAdaptiveTimeout = true)) :=
        fun h => absurd (hk.symm.trans (adaptive.mpr h)) (by decide)
      rw [if_neg (by decide), if_neg (by decide), if_neg fixed, ← hr]
      cases r.acknowledged n .timeout with
      | none => simp
      | some k =>
          have narrow : (UInt16.ofNat k).toUInt8 = UInt8.ofNat k := by
            rw [← UInt8.toNat_inj]
            simp
          simp [narrow]

/-- Right after the OACK, the options are those it calls for exactly when what
it leaves out was requested at its default. -/
theorem honours_taken_iff (hr : r.options = optionsInit ty o) (hty : r.requestType = ty) :
    Honours ty o r n (r.taken n) ↔ OmitsDefaults ty o r n := by
  have timeout := timeout_taken (n := n) hr hty
  have uploads (hput : ty = .put) : ¬CarriesAdaptive ty o r n := by
    rintro ⟨asked, -⟩
    rw [ClientOptions.isAdaptiveTimeoutRequired, hput] at asked
    simp at asked
  constructor
  · intro h
    refine ⟨fun ha hn => ?_, fun ha hc hn => ?_, fun hput hu => ?_, fun hget ha hn => ?_,
      fun ha hn => ?_⟩
    · have taken := h.blksize ha
      simpa [Request.taken, hn, hr] using taken
    · have taken := h.timeout ha
      rw [timeout, if_neg hc, hn] at taken
      split at taken
      · cases taken
      · exact Option.some.inj taken
    · by_contra requested
      have taken := h.timeout (eq_true_of_ne_false requested)
      rw [timeout, if_pos (.inr ⟨hput, hu⟩), if_neg (uploads hput)] at taken
      cases taken
    · have off := h.tsize ha
      rw [hn] at off
      have off : r.options.useTsize = false := off hget
      rw [hr] at off
      exact absurd (off.symm.trans ha) (by decide)
    · have taken := h.windowsize ha
      simpa [Request.taken, hn, hr] using taken
  · intro h
    refine ⟨fun ha => ?_, fun ha => ?_, fun ha => ?_, fun ha => ?_, fun ha hn => ?_⟩
    · show (r.acknowledged n .blksize).elim r.options.blockSize UInt16.ofNat = _
      cases hn : r.acknowledged n .blksize with
      | none => exact (congrArg Options.blockSize hr).trans (h.blksize ha hn)
      | some k => rfl
    · rw [timeout]
      by_cases hc : CarriesAdaptive ty o r n
      · rw [if_pos (.inl hc), if_pos hc]
      · have fixed : ¬(ty = .put ∧ o.useAdaptiveTimeout = true) := fun hput =>
          absurd ((h.upload hput.1 hput.2).symm.trans ha) (by decide)
        rw [if_neg (not_or.mpr ⟨hc, fixed⟩), if_neg hc]
        cases hn : r.acknowledged n .timeout with
        | none => exact congrArg some (h.timeout ha hc hn)
        | some k => rfl
    · have size : (r.taken n).tsize =
          (r.acknowledged n .tsize).elim r.options.tsize UInt64.ofNat := rfl
      cases hn : r.acknowledged n .tsize with
      | none => exact fun hget => (h.tsize hget ha hn).elim
      | some k => rw [size, hn, Option.elim_some, Option.elim_some]
    · show (r.acknowledged n .windowsize).elim r.options.windowSize UInt16.ofNat = _
      cases hn : r.acknowledged n .windowsize with
      | none => exact (congrArg Options.windowSize hr).trans (h.windowsize ha hn)
      | some k => rfl
    · refine if_pos ⟨rfl, ?_⟩
      rw [OptionTable.isActive, Option.isSome_eq_false_iff, Option.isNone_iff_eq_none]
      exact Option.map_eq_none_iff.mp hn

end

/-! ## The rest of the transfer -/

/-- The options in force in a client. -/
def Process.options : Process → Options
  | .requesting _ w => w.request.options
  | .receiving w => w.request.options
  | .sending w => w.request.options
  | .ended _ r _ => r.options

/-- The options are settled, as `x`. -/
def Process.Keeps (x : Options) : Process → Prop
  | .requesting _ _ => False
  | .receiving w => w.locals.isFirstReceive = false ∧ w.request.options = x
  | .sending w => w.request.options = x
  | .ended _ r _ => r.options = x

theorem keeps_step (x : Options) (p : Process) (e : Event) (h : p.Keeps x) :
    (p.step e).Keeps x := by
  cases p with
  | requesting file w => exact h.elim
  | receiving w =>
      obtain ⟨later, hx⟩ := h
      apply Process.step_receiving
      refine wp_mono (receiveRound_settles e.arrival (w.on e.sys)) (fun _ t ht => ?_)
        fun o t ht => ?_
      · cases ht with
        | same hs hf => exact ⟨hf.trans later, (congrArg Settings.options hs).trans hx⟩
        | oack _ _ first => exact absurd (later.symm.trans first) (by decide)
        | data first => exact absurd (later.symm.trans first) (by decide)
      · exact (congrArg Settings.options (ht.later later)).trans hx
  | sending w =>
      apply Process.step_sending
      refine wp_mono (fixes_sendRound e.arrival _ (w.on e.sys) rfl) (fun _ t ht => ?_)
        fun o t ht => ?_
      · exact (congrArg Settings.options ht).trans h
      · exact (congrArg Settings.options ht).trans h
  | ended o r sent => exact h

theorem Process.Keeps.options {x : Options} {p : Process} (h : p.Keeps x) : p.options = x := by
  cases p with
  | requesting file w => exact h.elim
  | receiving w => exact h.2
  | sending w => exact h
  | ended o r sent => exact h

/-- In this round the client takes an OACK as its first answer, and
`handle_oack_packet` accepts it. -/
inductive AcceptsOack : Process → Event → Request → ℕ → Prop where
  | read {w : World Receiver} {sys : Sys} {d : Datagram} :
      w.locals.isFirstReceive = true → d.sender.isInet → w.request.bytesReceived d ≠ 0 →
      readU16 (w.request.answeredBy d).recvBuffer 0 = Opcode.oack →
      (handleOackPacket (w.request.bytesReceived d)
        { w.on sys with
          request := w.request.answeredBy d
          locals := { w.locals with retransmissions := 0 } }).1 = .ok true →
      AcceptsOack (.receiving w) ⟨.datagram d, sys⟩ (w.request.answeredBy d)
        (w.request.bytesReceived d)
  | write {file : Bytes} {w asked : World Requester} {sys : Sys} {d : Datagram} :
      sendRequest (w.on sys) = (.ok (), asked) → asked.request.useOptions = true →
      readU16 (asked.answeredBy d).request.recvBuffer 0 = Opcode.oack →
      (handleOackPacket (asked.request.bytesReceived d) (asked.answeredBy d)).1 = .ok true →
      AcceptsOack (.requesting file w) ⟨.datagram d, sys⟩ (asked.answeredBy d).request
        (asked.request.bytesReceived d)

/-- An OACK that is accepted leaves the options as it takes them. -/
theorem wp_handleOackPacket_accepted {L : Type} {v : World L} {n : ℕ}
    (h : (handleOackPacket n v).1 = .ok true) {Q : Bool → World L → Prop}
    {E : Outcome → World L → Prop}
    (hQ : ∀ t, t.request.options = v.request.taken n → t.locals = v.locals → Q true t) :
    wp (handleOackPacket n) Q E v := by
  have outcome := handleOackPacket_outcome n v
  unfold wp at outcome ⊢
  generalize handleOackPacket n v = result at h outcome
  rcases result with ⟨o | b, t⟩
  · cases h
  · obtain rfl : b = true := by injection h
    cases outcome with
    | accepted _ _ _ hr _ hl => exact hQ t (by rw [hr]; rfl) hl

/-- The accepted OACK settles the options. -/
theorem keeps_accepted {p : Process} {e : Event} {r : Request} {n : ℕ}
    (h : AcceptsOack p e r n) : (p.step e).Keeps (r.taken n) := by
  cases h with
  | @read w sys d first inet received opcode accepted =>
      apply Process.step_receiving
      unfold receiveRound receiveDatagram
      rw [wp_bind, wp_modify, wp_bind, wp_modifyLocals, wp_bind, wp_request, wp_bind, wp_locals]
      refine wp_ite.mpr ⟨fun empty => (received empty).elim, fun _ => ?_⟩
      refine wp_ite.mpr ⟨fun _ => ?_, fun later => (later first).elim⟩
      rw [wp_bind, wp_modify]
      unfold receivePacket
      rw [wp_bind, wp_request]
      have peer : sockaddrEquals (w.request.answeredBy d).serverAddr d.sender = true :=
        sockaddrEquals_iff.mpr ⟨rfl, inet⟩
      refine wp_ite.mpr ⟨fun other => absurd (other.symm.trans peer) (by decide), fun _ => ?_⟩
      unfold switchOpcode receiveOack
      rw [wp_bind, wp_bind, wp_request]
      refine wp_ite.mpr ⟨fun _ => ?_, fun other => (other opcode).elim⟩
      rw [wp_bind, wp_request, wp_bind, wp_locals]
      refine wp_ite.mpr ⟨fun later => absurd (later.symm.trans first) (by decide), fun _ => ?_⟩
      rw [wp_bind]
      refine wp_handleOackPacket_accepted accepted fun t ht _ => ?_
      rw [wp_bind, wp_request]
      refine wp_ite.mpr ⟨fun h => absurd h (by decide), fun _ => wp_ite.mpr ⟨fun _ => ?_,
        fun _ => ?_⟩⟩
      · rw [wp_bind, wp_sendError]
        exact ⟨fun _ => ht, fun _ => ht⟩
      · rw [wp_sendAck]
        exact ⟨fun _ => ⟨rfl, ht⟩, fun _ => ht⟩
  | @write file w asked sys d sent used opcode accepted =>
      apply Process.step_requesting
      unfold requestRound
      rw [wp_bind]
      unfold wp
      rw [sent]
      show wp (handleFirstAnswer (asked.request.bytesReceived d) >>= fun _ => pure true) _ _
        (asked.answeredBy d)
      unfold handleFirstAnswer takeFirstAck
      rw [wp_bind, wp_bind, wp_request]
      refine wp_ite.mpr ⟨fun _ => ?_, fun other => (other opcode).elim⟩
      refine wp_ite.mpr ⟨fun unused => absurd (unused.symm.trans used) (by decide), fun _ => ?_⟩
      rw [wp_bind]
      refine wp_handleOackPacket_accepted accepted fun t ht _ => ?_
      show (enterSendFile file t).Keeps _
      unfold enterSendFile
      split
      · exact ht
      · exact ht

/-- The options of the request are still in force when the OACK comes. -/
theorem AcceptsOack.requested {c : Call} {o : ClientOptions} (ho : c.options = some o)
    {s : Sys} {events : List Event} {e : Event} {r : Request} {n : ℕ}
    (h : AcceptsOack (c.run s events) e r n) :
    r.options = optionsInit c.requestType o ∧ r.requestType = c.requestType := by
  have options : c.request.settings.options = optionsInit c.requestType o := by
    simp [Call.request, Request.settings, requestOptions, ho]
  have fresh := fresh_of_run c s events
  have settings : r.settings = c.request.settings := by
    generalize c.run s events = p at h fresh
    cases h with
    | read first => exact fresh first
    | @write file w asked sys d sent =>
        have requested := sendRequest_spec (w.on sys)
        unfold wp at requested
        rw [sent] at requested
        have requested : Requested (w.on sys) asked := requested
        obtain ⟨packet, hr, -⟩ := requested.request
        have kept : asked.request.settings = w.request.settings := by rw [hr]; rfl
        exact kept.trans fresh
  exact ⟨(congrArg Settings.options settings).trans options,
    congrArg Settings.requestType settings⟩

/-- For the rest of the transfer the options are those an OACK calls for. -/
def HonoursAlways (ty : RequestType) (o : ClientOptions) (r : Request) (n : ℕ) (p : Process) :
    Prop := ∀ later, Honours ty o r n (p.run later).options

/-- For the rest of the transfer the options are those the OACK calls for
exactly when what it leaves out was requested at its default. -/
theorem unacknowledged_options_iff {c : Call} {o : ClientOptions} (ho : c.options = some o)
    {s : Sys} {events : List Event} {e : Event} {r : Request} {n : ℕ}
    (h : AcceptsOack (c.run s events) e r n) :
    HonoursAlways c.requestType o r n ((c.run s events).step e) ↔
      OmitsDefaults c.requestType o r n := by
  obtain ⟨options, type⟩ := h.requested ho
  have settled (later : List Event) :
      (((c.run s events).step e).run later).options = r.taken n :=
    (Process.run_invariant (keeps_step _) (keeps_accepted h) later).options
  rw [← honours_taken_iff options type]
  constructor
  · intro honours
    have now := honours []
    rwa [settled] at now
  · intro honours later
    rwa [settled]

/-- A read that asks for the size of its file. -/
def sizedRead : Call where
  requestType := .get
  retries := 0
  server := .inet 0 69
  filename := ascii "f"
  mode := .octet
  options := some { useTsize := true }

/-- Its client, once it has sent the request. -/
def sizedRead.opened : World Receiver :=
  (begin sizedRead { request := sizedRead.request, locals := () }).2.enter {}

/-- An OACK for the size, and one for nothing. -/
def sizeAck : Datagram := ⟨.inet 0 1069, [0, 6] ++ ascii "tsize" ++ [0] ++ ascii "7" ++ [0]⟩

def emptyAck : Datagram := ⟨.inet 0 1069, [0, 6]⟩

theorem size_acknowledged :
    HonoursAlways .get { useTsize := true } (sizedRead.opened.request.answeredBy sizeAck) 10
      ((sizedRead.run {} []).step ⟨.datagram sizeAck, {}⟩) := by
  have accepts : AcceptsOack (sizedRead.run {} []) ⟨.datagram sizeAck, {}⟩
      (sizedRead.opened.request.answeredBy sizeAck) 10 :=
    .read (w := sizedRead.opened) (d := sizeAck) rfl rfl (by decide) (by decide) (by rfl)
  refine (unacknowledged_options_iff rfl accepts).mpr ⟨?_, ?_, ?_, ?_, ?_⟩
  · exact fun h => absurd h (by decide)
  · exact fun h => absurd h (by decide)
  · exact fun h => absurd h (by decide)
  · exact fun _ _ => by decide
  · exact fun h => absurd h (by decide)

/-- The size is compared at the end although the OACK leaves it out. -/
theorem size_compared_unacknowledged :
    ¬∀ (c : Call) (o : ClientOptions) (s : Sys) (events : List Event) (e : Event) (r : Request)
      (n : ℕ), c.options = some o → AcceptsOack (c.run s events) e r n →
      HonoursAlways c.requestType o r n ((c.run s events).step e) := by
  intro h
  have accepts : AcceptsOack (sizedRead.run {} []) ⟨.datagram emptyAck, {}⟩
      (sizedRead.opened.request.answeredBy emptyAck) 2 :=
    .read (w := sizedRead.opened) (d := emptyAck) rfl rfl (by decide) (by decide) (by rfl)
  have size := (h sizedRead { useTsize := true } {} [] ⟨.datagram emptyAck, {}⟩ _ 2 rfl accepts
    []).tsize rfl
  have omitted : (sizedRead.opened.request.answeredBy emptyAck).acknowledged 2 .tsize = none := by
    decide
  rw [omitted] at size
  exact absurd (size rfl) (by decide)

end Tftp.Client
