import Tftp.Server.Storage
import Tftp.Server.Retransmit
import Tftp.Lib.Blocks

/-!
# What reaches the file of a write session

The start of a session makes its receive buffer large enough for its blocks, once
a file is open. From then on a session takes in the blocks of a file one after the
other, as long as those that come in with the next number are the next ones.
-/

namespace Tftp.Server

open Prog Act

/-! ## The receive buffer -/

/-- What the room for a block depends on. -/
structure Room where
  requestType : RequestType
  mode : Mode
  fileDescriptor : ℤ
  blockSize : UInt16
  recvBufferSize : ℕ

def Session.room (s : Session) : Room where
  requestType := s.requestType
  mode := s.mode
  fileDescriptor := s.fileDescriptor
  blockSize := s.blockSize
  recvBufferSize := s.recvBufferSize

def World.room (w : World) : Room := w.session.room

instance : Blind World.room := ⟨fun _ _ => rfl, fun _ _ _ => rfl, fun _ _ _ _ => rfl⟩

instance : Unlogged World.room := ⟨fun _ _ => rfl⟩

/-- A write session that has its file has room for its blocks. -/
def Room.Suffices (r : Room) : Prop :=
  r.requestType = .write → r.mode ≠ .invalid → r.fileDescriptor ≠ -1 →
    4 + r.blockSize.toNat ≤ r.recvBufferSize

section Start

variable {w : World}

theorem prepareTransfer_room :
    wp prepareTransfer (fun _ t => t.room.Suffices) (fun _ _ => True) w := by
  have reported : Fixes World.room (do
      let s ← session
      if s.stats.error.errorOccurred then do
        sendErrorPacket s.clientAddress
        modify fun s => { s with shouldClose := true }
      else pure ()) :=
    .bind .session fun s => .ite (.bind (.sendErrorPacket _) fun _ => .modify fun _ => rfl)
      (.pure _)
  rw [prepareTransfer, wp_bind, wp_modify, wp_bind, allocateBuffers, wp_bind, wp_require]
  refine ⟨fun _ => ?_, fun _ => trivial⟩
  rw [wp_bind, wp_sys, wp_bind, wp_modify, wp_bind, wp_require]
  refine ⟨fun _ => reported.wp fun _ t ht => ?_, fun _ => trivial⟩
  rw [ht]
  intro _ _ _
  exact Nat.add_le_add_left (le_max_left _ _) 4

theorem startTransfer_room :
    wp startTransfer (fun _ t => t.room.Suffices) (fun _ _ => True) w := by
  rw [startTransfer, wp_bind, wp_session, wp_ite]
  refine ⟨fun _ => prepareTransfer_room, fun _ => ?_⟩
  refine wp_bind.mpr (wp_queryFileSize fun _ _ _ => ?_)
  exact wp_bind.mpr (wp_bind.mpr prepareTransfer_room)

/-- After its start a session is no write session, or it has no mode or no file, or
its receive buffer has room for its blocks. -/
theorem onStart_room (hread : w.session.requestType = .read) :
    wp onStart (fun _ t => t.room.Suffices) (fun _ _ => True) w := by
  have begins : wp start (fun _ t => t.room.Suffices) (fun _ _ => True) w := by
    rw [start, wp_bind, wp_session, wp_ite]
    refine ⟨fun _ => fun write => absurd (hread.symm.trans write) (by decide), fun _ => ?_⟩
    refine wp_bind.mpr (wp_mono (readRequest_spec w) ?_ fun _ _ _ => trivial)
    rintro _ _ ⟨fd, -, rfl⟩
    rw [wp_bind, wp_session, wp_ite]
    refine ⟨fun invalid => ?_, fun _ => ?_⟩
    · refine (Fixes.recordFailure _ _ : Fixes World.room _).wp fun _ t ht => ?_
      rw [ht]
      intro _ mode
      exact absurd invalid mode
    · rw [openFile, wp_bind, wp_session, wp_bind, wp_sys, wp_bind, wp_modify, wp_bind]
      refine (Fixes.sessionFileInit _ _ _ : Fixes World.room _).wp fun fd t ht => ?_
      rw [wp_bind, wp_modify, wp_ite]
      refine ⟨fun none_ => ?_, fun _ => startTransfer_room⟩
      intro _ _ some_
      exact absurd none_ some_
  have recv : Fixes World.room recvAsync :=
    .bind (.bind .require fun _ => .update fun _ => rfl) fun _ => .modify fun _ => rfl
  have timeout : Fixes World.room submitTimeout :=
    .bind (.bind .require fun _ => .update fun _ => rfl) fun _ => .modify fun _ => rfl
  have oack : Fixes World.room sendOack :=
    .bind .require fun _ => .bind .sys fun _ => .bind .session fun _ =>
      .bind (.modify fun _ => rfl) fun _ => .bind timeout fun _ => .sendto _ _
  have rest : Fixes World.room (do
      let s ← session
      if s.shouldClose then pure ()
      else do
        if s.optionsSettled = false then sendOack
        else if s.requestType = .write then do
          if ← Act.attempt then emit (.sent s.clientAddress (.ack 0)) else pure ()
        else pure ()
        recvAsync) :=
    .bind .session fun s => .ite (.pure _) (.ite (.bind oack fun _ => recv)
      (.ite (.bind .attempt fun _ => .ite (.bind (.emit _) fun _ => recv) recv) recv))
  refine wp_bind.mpr (wp_mono begins ?_ fun _ _ _ => trivial)
  intro _ t ht
  exact rest.wp fun _ t' ht' => ht' ▸ ht

end Start

instance : Detached World.room where
  ring _ _ _ _ _ _ := rfl
  block _ _ _ _ := rfl

namespace Upload

variable {info : ServerInfo} {request : PeerMessage} {x : Upload}

/-! ## What one call does -/

/-- What is written and acknowledged by a call after the start: a block is taken in
if one is accepted, and else at most the last ACK repeated. -/
inductive Takes (x : Upload) (sys : Sys) (e : Event) (l : Live) : Prop where
  | repeats : x.live.world.accepted e = none → x.live.world.storing.Repeats l.world.storing →
      Takes x sys e l
  | stores (d : Datagram) (k : ℕ) : x.live.world.accepted e = some d → sys.write = some k →
      sys.calls.headD true = true →
      l.world.storing = x.live.world.storing.block (readU16 d.bytes 2) ((d.bytes.drop 4).take k) →
      Takes x sys e l
  | fails (d : Datagram) (bytes : Bytes) : x.live.world.accepted e = some d → ¬l.listening →
      l.world.io = x.live.world.io ++ [.stored bytes] → Takes x sys e l

theorem Sound.takes {pre post : List Op} {op : Op} {e : Event}
    (h : Sound info request x) (hl : x.live.listening)
    (hops : x.live.world.inflight = pre ++ op :: post) (hr : op.Reports e)
    (hwrite : x.live.world.session.requestType = .write) (sys : Sys) :
    x.Takes sys e (deliver sys e { x.live.world with inflight := pre ++ post }) := by
  have hs : Server.Step x.live (.complete op sys e)
      (deliver sys e { x.live.world with inflight := pre ++ post }) := .complete op sys e hl hops hr
  cases ha : x.live.world.accepted e with
  | none => exact .repeats ha (hs.repeats h.ring hwrite (h.oack hl.ne_fresh) ha)
  | some d =>
      obtain ⟨rfl, own, accepts⟩ := accepted_eq_some ha
      obtain ⟨fails, listening⟩ := hs.stores own accepts
      rcases Classical.em (deliver sys (.packetReceived (.ok d))
          { x.live.world with inflight := pre ++ post }).listening with hl' | ended
      · obtain ⟨k, wrote, answered, stored⟩ := listening hl'
        exact .stores d k ha wrote answered stored
      · rcases fails with ⟨bytes, io⟩ | ⟨k, wrote, answered, stored⟩
        · exact .fails d bytes ha ended io
        · exact .stores d k ha wrote answered stored

/-! ## Blocks of one file -/

/-- What a session has taken in of a file: its first blocks, in order. After a
failure this holds of the blocks that were acknowledged. -/
structure Follows (size : ℕ) (file : Bytes) (x : Upload) : Prop where
  kept : x.live.listening → x.blocks = Blocks.firstBlocks size file x.blocks.length
  acked : ∀ pre n post, x.live.world.io = pre ++ .acked n :: post →
    x.blocks.take (Io.writes pre) = Blocks.firstBlocks size file (Io.writes pre)
  writes : Io.writes x.live.world.io = x.blocks.length

/-- Where a step takes in a block that is written, it is the next one of the file. -/
def TakesNext (size : ℕ) (file : Bytes) (x : Upload) : Label → Prop
  | .complete _ sys e => ∀ d k, x.live.world.accepted e = some d → sys.write = some k →
      d.bytes.drop 4 = Blocks.block size file (x.blocks.length + 1)
  | _ => True

variable {size : ℕ} {file : Bytes}

theorem writes_before_le {io pre post : List Io} {i : Io} (h : io = pre ++ i :: post) :
    Io.writes pre ≤ Io.writes io := by
  rw [h, Io.writes_append]
  exact Nat.le_add_right _ _

/-- The acknowledgments of a longer list are the old ones and the new one. -/
theorem acked_snoc {io pre post : List Io} {n m : UInt16} (h : io ++ [.acked n] = pre ++ .acked m :: post) :
    pre = io ∨ ∃ post', io = pre ++ .acked m :: post' := by
  rcases List.append_eq_append_iff.mp h with ⟨rest, rfl, later⟩ | ⟨rest, rfl, later⟩
  · cases rest with
    | nil => exact .inl (List.append_nil _)
    | cons i rest => simp at later
  · cases rest with
    | nil => exact .inl (List.append_nil _).symm
    | cons i rest =>
        obtain ⟨rfl, -⟩ : Io.acked m = i ∧ post = rest ++ [.acked n] := by simpa using later
        exact .inr ⟨rest, rfl⟩

theorem acked_stored {io pre post : List Io} {b : Bytes} {m : UInt16}
    (h : io ++ [.stored b] = pre ++ .acked m :: post) : ∃ post', io = pre ++ .acked m :: post' := by
  rcases List.append_eq_append_iff.mp h with ⟨rest, rfl, later⟩ | ⟨rest, rfl, later⟩
  · cases rest with
    | nil => simp at later
    | cons i rest => simp at later
  · cases rest with
    | nil => simp at later
    | cons i rest =>
        obtain ⟨rfl, -⟩ : Io.acked m = i ∧ post = rest ++ [.stored b] := by simpa using later
        exact ⟨rest, rfl⟩

namespace Follows

theorem boot : Follows size file (boot info request) where
  kept _ := rfl
  acked pre n post h := by
    have none_ : ([] : List Io) = pre ++ .acked n :: post := h
    simp at none_
  writes := rfl

theorem taken {sys : Sys} {e : Event} {l : Live} (h : x.Follows size file)
    (hl : x.live.listening) (taken : x.Takes sys e l) {op : Op}
    (whole : WritesAll x (.complete op sys e)) (next : TakesNext size file x (.complete op sys e)) :
    Follows size file ⟨l, x.blocks ++ arrival x.live (.complete op sys e)⟩ := by
  have kept := h.kept hl
  have before {pre post : List Io} {n : UInt16} (split : x.live.world.io = pre ++ .acked n :: post)
      (more : List Bytes) : (x.blocks ++ more).take (Io.writes pre) =
        Blocks.firstBlocks size file (Io.writes pre) := by
    rw [List.take_append_of_le_length (h.writes ▸ writes_before_le split)]
    exact h.acked pre n post split
  cases taken with
  | repeats none_ repeats =>
      have nothing : x.blocks ++ arrival x.live (.complete op sys e) = x.blocks := by
        rw [arrival, none_]
        exact List.append_nil _
      rw [nothing]
      rcases repeats with same | ⟨-, again⟩
      · have io : l.world.io = x.live.world.io := congrArg Storing.io same
        exact ⟨fun _ => kept, by rw [io]; exact h.acked, (congrArg Io.writes io).trans h.writes⟩
      · have io : l.world.io = x.live.world.io ++ [.acked _] := congrArg Storing.io again
        refine ⟨fun _ => kept, fun pre n post split => ?_, ?_⟩
        · rw [io] at split
          rcases acked_snoc split with rfl | ⟨post', old⟩
          · rw [h.writes, List.take_length]
            exact kept
          · exact h.acked pre n post' old
        · show Io.writes l.world.io = x.blocks.length
          rw [io, Io.writes_append, h.writes]
          rfl
  | stores d k accepted wrote answered stored =>
      have full : (d.bytes.drop 4).take k = d.bytes.drop 4 := by
        rcases whole d k accepted wrote with all | unsent
        · exact List.take_of_length_le all
        · rw [List.headD_eq_head?_getD, unsent] at answered
          cases answered
      have blocks : x.blocks ++ arrival x.live (.complete op sys e) =
          Blocks.firstBlocks size file (x.blocks.length + 1) := by
        rw [arrival, accepted, Blocks.firstBlocks_succ, ← kept, ← next d k accepted wrote]
        rfl
      have io : l.world.io =
          x.live.world.io ++ [.stored (d.bytes.drop 4)] ++ [.acked (readU16 d.bytes 2)] := by
        rw [full] at stored
        exact congrArg Storing.io stored
      have writes : Io.writes (x.live.world.io ++ [.stored (d.bytes.drop 4)]) =
          x.blocks.length + 1 := by
        rw [Io.writes_append, h.writes]
        rfl
      rw [blocks]
      refine ⟨fun _ => ?_, fun pre n post split => ?_, ?_⟩
      · rw [Blocks.length_firstBlocks]
      · rw [io] at split
        rcases acked_snoc split with rfl | ⟨post', old⟩
        · rw [writes]
          exact List.take_of_length_le (Blocks.length_firstBlocks _ _ _).le
        · obtain ⟨post'', older⟩ := acked_stored old
          rw [← blocks]
          exact before older _
      · show Io.writes l.world.io = _
        rw [io, Io.writes_append, writes, Blocks.length_firstBlocks]
        rfl
  | fails d bytes accepted ended io =>
      refine ⟨fun hl' => (ended hl').elim, fun pre n post split => ?_, ?_⟩
      · rw [io] at split
        obtain ⟨post', old⟩ := acked_stored split
        exact before old _
      · show Io.writes l.world.io = _
        rw [io, Io.writes_append, h.writes, arrival, accepted, List.length_append]
        rfl

/-- The start stores nothing, and acknowledges no block. -/
theorem started {sys : Sys} (h : Sound info request x) (hf : x.live.status = .fresh) :
    Follows size file ⟨deliver sys .start x.live.world, x.blocks⟩ := by
  obtain rfl := h.fresh hf
  have hs : Server.Step (Live.boot info request) (.start sys)
      (deliver sys .start (Live.boot info request).world) := .start sys hf
  obtain ⟨io, -⟩ := hs.greets
  have writes : Io.writes (deliver sys .start (Live.boot info request).world).world.io = 0 := by
    rcases io with none_ | greeted
    · exact congrArg Io.writes none_
    · exact congrArg Io.writes greeted
  refine ⟨fun _ => rfl, fun pre n post split => ?_, writes⟩
  have none_ : Io.writes pre = 0 := Nat.le_zero.mp ((writes_before_le split).trans writes.le)
  rw [none_]
  rfl

/-- A session takes in the file as long as the blocks it accepts are the next ones. -/
theorem step {y : Upload} {label : Label} (h : x.Follows size file) (sound : Sound info request x)
    (hs : Step x label y)
    (hwrite : x.live.status ≠ .fresh → x.live.world.session.requestType = .write)
    (whole : WritesAll x label) (next : TakesNext size file x label) : y.Follows size file := by
  cases hs with
  | mk taken =>
      cases taken with
      | start sys hf =>
          have none_ : arrival x.live (.start sys) = [] := rfl
          rw [none_, List.append_nil]
          exact .started sound hf
      | complete op sys e hl hops hr =>
          exact h.taken hl (sound.takes hl hops hr (hwrite hl.ne_fresh) sys) whole next
      | @expire pre post hl hops =>
          have none_ : arrival x.live .expire = [] := rfl
          rw [none_, List.append_nil]
          exact ⟨h.kept, h.acked, h.writes⟩
      | @fill pre post slot offset length bytes hl hops room =>
          have none_ : arrival x.live (.fill bytes) = [] := rfl
          rw [none_, List.append_nil]
          exact ⟨h.kept, h.acked, h.writes⟩

end Follows

/-- Once it has started, a session has room for its blocks. -/
def Roomy (x : Upload) : Prop := x.live.listening → x.live.world.room.Suffices

theorem Roomy.step {y : Upload} {label : Label} (h : x.Roomy) (sound : Sound info request x)
    (hs : Step x label y) : y.Roomy := by
  cases hs with
  | mk taken =>
      cases taken with
      | start sys hf =>
          obtain rfl := sound.fresh hf
          exact (deliver_view sys .start (Live.boot info request).world (π := World.room)
            (P := Room.Suffices) (E := fun _ => True) (onStart_room rfl) fun _ _ => trivial).2
      | complete op sys e hl hops hr =>
          have hs := Server.Step.complete op sys e hl hops hr
          have settings := hs.settings hl.ne_fresh
          intro _
          have room := congrArg (fun s : Settings =>
            (⟨s.requestType, s.mode, s.fileDescriptor, s.blockSize, s.recvBufferSize⟩ : Room)) settings
          exact (congrArg Room.Suffices room).mpr (h hl)
      | expire hl hops => exact fun _ => h hl
      | fill bytes hl hops room => exact fun _ => h hl

end Upload

end Tftp.Server
