import Tftp.Server.Run

/-!
# Rules for the primitives of `Act`

Weakest preconditions of the calls the handlers are built from. A call that
can fail consumes one answer of the system.
-/

namespace Tftp.Server

open Prog

namespace World

/-- The next answer of the system. -/
def answer (w : World) : Bool := w.sys.calls.headD true

/-- The world after that answer. -/
def answered (w : World) : World := { w with sys := { w.sys with calls := w.sys.calls.tail } }

@[simp] theorem answered_session (w : World) : w.answered.session = w.session := rfl
@[simp] theorem answered_inflight (w : World) : w.answered.inflight = w.inflight := rfl
@[simp] theorem answered_log (w : World) : w.answered.log = w.log := rfl
@[simp] theorem answered_file (w : World) : w.answered.sys.file = w.sys.file := rfl
@[simp] theorem answered_write (w : World) : w.answered.sys.write = w.sys.write := rfl
@[simp] theorem answered_atEndOfFile (w : World) :
    w.answered.sys.atEndOfFile = w.sys.atEndOfFile := rfl
@[simp] theorem answered_byteReads (w : World) :
    w.answered.sys.byteReads = w.sys.byteReads := rfl

end World

namespace Act

variable {α : Type} {Q : α → World → Prop} {E : Abort → World → Prop} {w : World}

@[simp] theorem wp_session {Q : Session → World → Prop} :
    wp session Q E w ↔ Q w.session w := Iff.rfl

@[simp] theorem wp_sys {Q : Sys → World → Prop} : wp sys Q E w ↔ Q w.sys w := Iff.rfl

@[simp] theorem wp_modify {f : Session → Session} {Q : Unit → World → Prop} :
    wp (modify f) Q E w ↔ Q () { w with session := f w.session } := Iff.rfl

@[simp] theorem wp_emit {e : Entry} {Q : Unit → World → Prop} :
    wp (emit e) Q E w ↔ Q () { w with log := w.log ++ [e] } := Iff.rfl

@[simp] theorem wp_attempt {Q : Bool → World → Prop} :
    wp attempt Q E w ↔ Q w.answer w.answered := by
  rcases w with ⟨s, ⟨calls, _, _, _, _, _, _, _, _⟩, inflight, log⟩
  cases calls <;> exact Iff.rfl

@[simp] theorem wp_require {Q : Unit → World → Prop} :
    wp require Q E w ↔
      (w.answer = true → Q () w.answered) ∧ (w.answer = false → E .error w.answered) := by
  simp [require]

@[simp] theorem wp_submit {op : Op} {Q : Unit → World → Prop} :
    wp (submit op) Q E w ↔
      (w.answer = true → Q () { w.answered with inflight := w.inflight ++ [op] }) ∧
        (w.answer = false → E .error w.answered) := by
  simp [submit]

@[simp] theorem wp_sendto {dest : Address} {packet : Packet} {Q : Unit → World → Prop} :
    wp (sendto dest packet) Q E w ↔
      (w.answer = true → Q () { w.answered with log := w.log ++ [.sent dest packet] }) ∧
        (w.answer = false → E .error w.answered) := by
  simp [sendto]

@[simp] theorem wp_recordFailure {n : UInt16} {m : Bytes} {Q : Unit → World → Prop} :
    wp (recordFailure n m) Q E w ↔
      Q () { w with
        session := { w.session with
          stats := { w.session.stats with error := ⟨true, n, m⟩ } }
        log := w.log ++ [.failed ⟨true, n, m⟩] } := by
  simp [recordFailure]

end Act

/-! ## Views a program leaves alone -/

/-- The program leaves the view `π` of the world as it is. -/
def Fixes {γ α : Type} (π : World → γ) (x : Act α) : Prop := ∀ c, Keeps (fun w => π w = c) x

/-- An entry that carries the transfer on: a packet other than an ERROR, or a
write to the file. -/
def Entry.isProgress : Entry → Bool
  | .sent _ (.error _ _) => false
  | .sent _ _ => true
  | .wrote _ _ => true
  | _ => false

/-- The view does not read which calls of the system fail; of the log it reads
no more than what carries the transfer on, and of the session no reports. -/
class Quiet {γ : Type} (π : World → γ) : Prop where
  calls : ∀ (w : World) (calls : List Bool),
    π { w with sys := { w.sys with calls := calls } } = π w
  note : ∀ (w : World) (e : Entry), e.isProgress = false → π { w with log := w.log ++ [e] } = π w
  reports : ∀ (w : World) (stats : SessionStats) (packet : Option Packet),
    π { w with session := { w.session with stats := stats, errorPacket := packet } } = π w

/-- The view does not read the answers of the system; of the log it reads no
more than what carries the transfer on, and of the session no reports and no
byte left over by the netascii encoder. -/
class Blind {γ : Type} (π : World → γ) : Prop where
  sys : ∀ (w : World) (sys : Sys), π { w with sys := sys } = π w
  note : ∀ (w : World) (e : Entry), e.isProgress = false → π { w with log := w.log ++ [e] } = π w
  reports : ∀ (w : World) (stats : SessionStats) (packet : Option Packet) (c : Option UInt8),
    π { w with session :=
      { w.session with stats := stats, errorPacket := packet, netasciiBuffer := c } } = π w

instance {γ : Type} {π : World → γ} [Blind π] : Quiet π where
  calls w _ := Blind.sys w _
  note := Blind.note
  reports w stats packet := Blind.reports w stats packet w.session.netasciiBuffer

/-- The view does not read the log. -/
class Unlogged {γ : Type} (π : World → γ) : Prop where
  log : ∀ (w : World) (log : List Entry), π { w with log := log } = π w

/-- The view also reads neither the operations in flight with the flags of the
session about them, nor the block that is being read. -/
class Detached {γ : Type} (π : World → γ) : Prop extends Blind π where
  ring : ∀ (w : World) (ops : List Op) (jobs : UInt8) (active fetching closing : Bool),
    π { w with
      inflight := ops
      session := { w.session with
        pendingJobs := jobs
        isTimerActive := active
        isFetchingData := fetching
        shouldClose := closing } } = π w
  block : ∀ (w : World) (packets : Option (ℕ → Slot)) (size : UInt16) (incomplete : Bool),
    π { w with session := { w.session with
      dataPackets := packets
      lastBlockSize := size
      incompleteRead := incomplete } } = π w

namespace Fixes

open Act

variable {γ α β : Type} {π : World → γ}

theorem pure (a : α) : Fixes π (Pure.pure a) := fun _ => Keeps.pure a

theorem stop (e : Abort) : Fixes π (Prog.stop e : Act α) := fun _ => Keeps.stop e

theorem session : Fixes π session := fun _ => Keeps.gets _

theorem sys : Fixes π sys := fun _ => Keeps.gets _

theorem bind {x : Act α} {f : α → Act β} (hx : Fixes π x) (hf : ∀ a, Fixes π (f a)) :
    Fixes π (x >>= f) := fun c => Keeps.bind (hx c) fun a => hf a c

theorem ite {p : Prop} [Decidable p] {x y : Act α} (hx : Fixes π x) (hy : Fixes π y) :
    Fixes π (if p then x else y) := fun c => Keeps.ite (hx c) (hy c)

theorem update {f : World → World} (h : ∀ w, π (f w) = π w) : Fixes π (Prog.update f) :=
  fun _ w hw => (h w).trans hw

theorem modify {f : Session → Session}
    (h : ∀ w : World, π { w with session := f w.session } = π w) : Fixes π (modify f) := update h

theorem getDataPacketInfo (s : Session) (i size : UInt16) :
    Fixes π (getDataPacketInfo s i size) := by
  unfold Server.getDataPacketInfo
  split
  · exact stop _
  · split
    · exact stop _
    · exact pure _

/-- A program leaves alone what can be read off a view it leaves alone. -/
theorem comp {δ : Type} {x : Act α} (f : γ → δ) (hx : Fixes π x) : Fixes (fun w => f (π w)) x :=
  fun _ w hw => wp_mono (hx _ w rfl) (fun _ _ ht => (congrArg f ht).trans hw)
    fun _ _ ht => (congrArg f ht).trans hw

theorem wp {x : Act α} {Q : α → World → Prop} {w : World} (hx : Fixes π x)
    (h : ∀ a t, π t = π w → Q a t) : Prog.wp x Q (fun _ _ => True) w :=
  wp_mono (hx _ w rfl) h fun _ _ _ => trivial

theorem keeps {x : Act α} {P : γ → Prop} (h : Fixes π x) : Keeps (fun w => P (π w)) x :=
  fun w hw => wp_mono (h _ w rfl) (fun _ _ ht => (congrArg P ht).mpr hw)
    fun _ _ ht => (congrArg P ht).mpr hw

/-! Most views see neither the calls that fail nor the reports. -/

section Quiet

variable [Quiet π]

theorem note {e : Entry} (h : e.isProgress = false) : Fixes π (Act.emit e) :=
  update fun w => Quiet.note w e h

theorem attempt : Fixes π attempt := fun _ w h => wp_attempt.mpr ((Quiet.calls w _).trans h)

theorem require : Fixes π require := fun _ w h =>
  wp_require.mpr ⟨fun _ => (Quiet.calls w _).trans h, fun _ => (Quiet.calls w _).trans h⟩

/-- An update of the reports of the session. -/
theorem report (f : Session → SessionStats) (g : Session → Option Packet) :
    Fixes π (Act.modify fun s => { s with stats := f s, errorPacket := g s }) :=
  modify fun w => Quiet.reports w _ _

theorem recordFailure (n : UInt16) (m : Bytes) : Fixes π (recordFailure n m) :=
  bind (report _ _) fun _ => note rfl

theorem sendErrorPacket (dest : Address) : Fixes π (sendErrorPacket dest) := by
  -- the packet that is sent is an ERROR
  have unfolded : Server.sendErrorPacket dest = (do
      Act.require
      let s ← Act.session
      let packet := Packet.error s.stats.error.errorNumber s.stats.error.errorMessage
      Act.modify fun s => { s with errorPacket := some packet }
      Act.sendto dest packet) := by
    funext w
    rw [Server.sendErrorPacket, errorPacketInit]
    simp only [Prog.bind_apply]
    rcases Act.require w with ⟨_ | _, t⟩ <;> rfl
  rw [unfolded]
  exact bind require fun _ => bind session fun _ => bind (report _ _) fun _ =>
    bind require fun _ => note rfl

theorem setMaxRetransmissionsError : Fixes π setMaxRetransmissionsError :=
  bind require fun _ => bind session fun _ => recordFailure _ _

theorem reportClientError (packet : Bytes) : Fixes π (reportClientError packet) :=
  ite (bind require fun _ => report _ _) (report _ _)

theorem unknownTransferId (sender : Address) : Fixes π (unknownTransferId sender) :=
  bind (report _ _) fun _ => bind (sendErrorPacket _) fun _ => report _ _

theorem fileFailure (n : UInt16) (m : Bytes) : Fixes π (fileFailure n m) :=
  bind (recordFailure _ _) fun _ => pure _

theorem openDirectoryAsMemfile (a : FileAnswers) : Fixes π (openDirectoryAsMemfile a) := by
  refine ite (fileFailure _ _) ?_
  cases a.opendir with
  | none => exact fileFailure _ _
  | some dir =>
      refine bind (note rfl) fun _ => ?_
      cases a.pipe with
      | none => exact fileFailure _ _
      | some ends =>
          refine bind (note rfl) fun _ => bind (note rfl) fun _ => ite ?_ (ite ?_ ?_)
          · exact bind (note rfl) fun _ => bind (note rfl) fun _ => fileFailure _ _
          · exact bind (note rfl) fun _ => bind (note rfl) fun _ => bind (note rfl) fun _ =>
              fileFailure _ _
          · exact bind (note rfl) fun _ => bind (note rfl) fun _ => pure _

theorem sessionFileInit (ty : RequestType) (rt : ReadType) (a : FileAnswers) :
    Fixes π (sessionFileInit ty rt a) := by
  refine ite (openDirectoryAsMemfile a) (ite (fileFailure _ _) ?_)
  cases a.openFile with
  | ok fd => exact bind (note rfl) fun _ => pure _
  | error e =>
      cases e with
      | eacces => exact fileFailure _ _
      | enoent => exact fileFailure _ _
      | other m => exact fileFailure _ _

theorem queryFileSize : Fixes π queryFileSize :=
  bind session fun _ => bind sys fun _ => ite (bind (note rfl) fun _ => pure _) (pure _)

/-- The end of a call only completes the statistics. -/
theorem finish : Fixes π finish :=
  have closes : Fixes π closeSession :=
    bind session fun _ => ite (bind (note rfl) fun _ => ite (note rfl) (pure _))
      (ite (note rfl) (pure _))
  bind session fun _ => ite (bind (report _ _) fun _ => bind session fun _ =>
    ite (bind (note rfl) fun _ => bind closes fun _ => pure _) (bind closes fun _ => pure _)) (pure _)

end Quiet

section Unlogged

variable [Unlogged π]

theorem emit (e : Entry) : Fixes π (emit e) := update fun w => Unlogged.log w _

variable [Quiet π]

theorem sendto (dest : Address) (packet : Packet) : Fixes π (sendto dest packet) :=
  bind require fun _ => emit _

theorem retransmitWindow (rounds : ℕ) (i : UInt16) : Fixes π (retransmitWindow rounds i) := by
  induction rounds generalizing i with
  | zero => exact stop _
  | succ rounds ih =>
      exact bind session fun s =>
        ite (bind (getDataPacketInfo _ _ _) fun _ => bind (sendto _ _) fun _ => ih _) (pure _)

theorem retransmit : Fixes π retransmit := by
  refine bind session fun s => ite ?_ (ite (sendto _ _) (retransmitWindow _ _))
  cases s.oackPacket with
  | none => exact stop _
  | some packet => exact sendto _ _

end Unlogged

/-! Only the netascii encoder reads bytes and leaves one over. -/

section Blind

variable [Blind π]

/-- An update of the byte left over. -/
theorem carry (f : Session → Option UInt8) :
    Fixes π (Act.modify fun s => { s with netasciiBuffer := f s }) :=
  modify fun w => Blind.reports w _ _ _

theorem readByte (fd : ℤ) : Fixes π (readByte fd) :=
  bind (note rfl) fun _ => bind sys fun _ => bind (update fun w => Blind.sys w _) fun _ => pure _

theorem netasciiLoop (fd : ℤ) (size rounds : ℕ) (block : Bytes) :
    Fixes π (netasciiLoop fd size rounds block) := by
  induction rounds generalizing block with
  | zero => exact pure _
  | succ rounds ih =>
      unfold Server.netasciiLoop
      refine ite (bind session fun s => bind (carry _) fun _ =>
        bind (readByte _) fun answer => ?_) (pure _)
      cases answer with
      | byte c => exact ite (ite (bind (carry _) fun _ => ih _) (ih _)) (ih _)
      | endOfFile => exact pure _
      | failed => exact bind (recordFailure _ _) fun _ => stop _

end Blind

/-! Few views see what is in flight. -/

section Detached

variable [Detached π]

/-- An update of the flags of the session. -/
theorem flag (jobs : Session → UInt8) (active fetching closing : Session → Bool) :
    Fixes π (Act.modify fun s => { s with
      pendingJobs := jobs s
      isTimerActive := active s
      isFetchingData := fetching s
      shouldClose := closing s }) :=
  modify fun w => Detached.ring w w.inflight _ _ _ _

/-- An update of the operations in flight. -/
theorem inflight (f : World → List Op) :
    Fixes π (Prog.update fun w => { w with inflight := f w }) :=
  update fun w => Detached.ring w _ w.session.pendingJobs _ _ _

/-- An update of the block that is being read. -/
theorem blockBuffer (packets : Session → Option (ℕ → Slot)) (size : Session → UInt16)
    (incomplete : Session → Bool) :
    Fixes π (Act.modify fun s => { s with
      dataPackets := packets s
      lastBlockSize := size s
      incompleteRead := incomplete s }) :=
  modify fun w => Detached.block w _ _ _

theorem jobDone : Fixes π jobDone := flag _ _ _ _

theorem submit (op : Op) : Fixes π (submit op) := bind require fun _ => inflight _

theorem recvAsync : Fixes π recvAsync := bind (submit _) fun _ => flag _ _ _ _

theorem recvAsyncCancel : Fixes π recvAsyncCancel :=
  bind require fun _ => bind (inflight _) fun _ => flag _ _ _ _

theorem submitTimeout : Fixes π submitTimeout := bind (submit _) fun _ => flag _ _ _ _

theorem submitCancelTimeout : Fixes π submitCancelTimeout :=
  bind require fun _ => bind (inflight _) fun _ => flag _ _ _ _

theorem giveUp : Fixes π giveUp :=
  bind (flag _ _ _ _) fun _ => bind recvAsyncCancel fun _ => bind setMaxRetransmissionsError
    fun _ => bind session fun _ => sendErrorPacket _

theorem readFailure : Fixes π readFailure :=
  bind (flag _ _ _ _) fun _ => bind (recordFailure _ _) fun _ => bind session fun _ =>
    sendErrorPacket _

theorem unexpectedOpcode : Fixes π unexpectedOpcode :=
  bind (flag _ _ _ _) fun _ => bind (recordFailure _ _) fun _ => bind session fun _ =>
    sendErrorPacket _

theorem createDataPackets (n : ℕ) : Fixes π (createDataPackets n) := by
  refine bind (blockBuffer _ _ _) fun _ => bind session fun s => bind (bind sys fun _ => pure _)
    fun atEnd => ite (bind (blockBuffer _ _ _) fun _ => pure _) (ite (stop _) ?_)
  cases s.dataPackets with
  | none => exact stop _
  | some slots => exact bind (blockBuffer _ _ _) fun _ => pure _

/-- A read of the file fails, goes on, or gives the block that is sent. -/
theorem onDataAvailable (send : Fixes π sendNextBlock) (r : Completion ℕ) :
    Fixes π (onDataAvailable r) := by
  refine bind session fun _ => ite ?_ send
  cases r with
  | error e => exact readFailure
  | ok n => exact bind (createDataPackets n) fun _ => ite send (pure _)

theorem fetchData : Fixes π fetchData := by
  have octet : Fixes π fetchDataOctetAsync :=
    bind session fun _ => ite (stop _) (bind (blockBuffer _ _ _) fun _ => bind (submit _) fun _ =>
      bind (note rfl) fun _ => flag _ _ _ _)
  have netascii : Fixes π fetchDataNetasciiAsync := by
    refine bind session fun s => ite (stop _) ?_
    cases s.dataPackets with
    | none =>
        exact bind (readByte _) fun _ => ite (stop _)
          (bind (bind (recordFailure _ _) fun _ => stop _) fun _ => pure _)
    | some slots =>
        exact bind (netasciiLoop _ _ _ _) fun _ => bind (blockBuffer _ _ _) fun _ =>
          bind (submit _) fun _ => flag _ _ _ _
  exact bind session fun _ => ite (bind (flag _ _ _ _) fun _ => ite octet netascii) (pure _)

/-- Whatever the events of the transfer leave alone, the `switch` does. -/
theorem dispatch {e : Event} (he : e ≠ .start) (send : Fixes π sendNextBlock)
    (timeout : Fixes π onTimeout)
    (packet : ∀ d, e = .packetReceived (.ok d) → Fixes π (onPacketReceived (.ok d))) :
    Fixes π (dispatch e) := by
  cases e with
  | start => exact (he rfl).elim
  | dataAvailable r =>
      exact bind jobDone fun _ => bind (flag _ _ _ _) fun _ => onDataAvailable send r
  | timeout r => exact bind jobDone fun _ => bind session fun _ => ite (pure _) (ite (pure _) timeout)
  | timeoutRemoved r =>
      refine bind jobDone fun _ => ?_
      cases r with
      | ok n => exact pure _
      | error e => exact ite (stop _) (pure _)
  | packetReceivedRemoved r =>
      refine bind jobDone fun _ => ?_
      cases r with
      | ok n => exact pure _
      | error e => exact ite (stop _) (pure _)
  | packetReceived r =>
      refine bind jobDone fun _ => bind session fun _ => ite (pure _) ?_
      cases r with
      | error e => exact ite (pure _) (stop _)
      | ok d => exact bind (packet d rfl) fun _ => bind session fun _ => ite (pure _) recvAsync

end Detached

end Fixes

/-- What the `switch` makes of a view it sees is what the call makes of it. -/
theorem deliver_view {γ : Type} {π : World → γ} [Detached π] (sys : Sys) (e : Event) (w : World)
    {P E : γ → Prop}
    (h : wp (dispatch e) (fun _ t => P (π t)) (fun _ t => E (π t)) { w with sys := sys })
    (hPE : ∀ c, P c → E c) :
    E (π (deliver sys e w).world) ∧
      ((deliver sys e w).listening → P (π (deliver sys e w).world)) := by
  refine deliver_spec (P := fun l => E (π l.world) ∧ (l.listening → P (π l.world))) ?_
  refine wp_bind.mpr (wp_mono h ?_ ?_)
  · intro _ t ht
    have rest : Fixes π (do
        fetchData
        finish) := .bind .fetchData fun _ => .finish
    refine wp_mono (rest _ t rfl) (fun _ t' same => ?_) fun _ t' same => ?_
    · rw [same]
      exact ⟨hPE _ ht, fun _ => ht⟩
    · rw [same]
      exact ⟨hPE _ ht, fun _ => ht⟩
  · intro a t ht
    refine ⟨ht, fun hl => ?_⟩
    cases a <;> simp [Live.listening, Abort.status] at hl

end Tftp.Server
