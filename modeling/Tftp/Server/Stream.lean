import Tftp.Server.Transfer

/-!
# Runs that are followed by their stream

A run of a read session together with the bytes it has read, those the read in
flight has put in memory, and the payloads of the blocks that went out.
-/

namespace Tftp.Server

open Prog Act Blocks

/-! ## Runs -/

/-- A session whose window and whose stream are followed: what it has read,
what the read in flight has put in memory, and the blocks that went out. For
the block at hand, `reads` counts the reads that have completed, and `more`
tells whether the source had more when it was last asked. -/
structure Transfer extends Tracked where
  stream : Bytes
  arriving : Bytes
  blocks : List Bytes
  reads : ℕ
  more : Bool

def ByteRead.byte? : ByteRead → Option UInt8
  | .byte b => some b
  | _ => none

/-- The answers to the one-byte reads of the netascii encoder. -/
def Label.byteReads : Label → List ByteRead
  | .start sys => sys.byteReads
  | .complete _ sys _ => sys.byteReads
  | _ => []

/-- The bytes that a completed read brings. -/
def Label.brings (arriving : Bytes) : Label → Bytes
  | .complete _ _ (.dataAvailable (.ok _)) => arriving
  | _ => []

/-- The bytes of the source a step takes: those of a completed read, or those
the netascii encoder has read. -/
def Label.taken (label : Label) (arriving : Bytes) (l' : Live) : Bytes :=
  if l'.world.session.mode = .octet then label.brings arriving
  else (label.byteReads.take
    (label.byteReads.length - l'.world.sys.byteReads.length)).filterMap ByteRead.byte?

/-- The blocks that go out for the first time. -/
def Label.produced (label : Label) (l l' : Live) : List Bytes :=
  match label with
  | .complete _ _ (.dataAvailable (.ok _)) => payloads (l'.world.log.drop l.world.log.length)
  | _ => []

/-- The bytes the read in flight has put in memory. -/
def Label.arriving (label : Label) (arriving : Bytes) : Bytes :=
  match label with
  | .fill bytes => bytes
  | .complete _ _ (.dataAvailable _) => []
  | _ => arriving

namespace Transfer

def boot (info : ServerInfo) (request : PeerMessage) : Transfer where
  toTracked := Tracked.boot info request
  stream := []
  arriving := []
  blocks := []
  reads := 0
  more := false

def follow (x : Transfer) (label : Label) (l' : Live) : Transfer where
  toTracked := x.toTracked.follow l'
  stream := x.stream ++ label.taken x.arriving l'
  arriving := label.arriving x.arriving
  blocks := x.blocks ++ label.produced x.live l'
  reads :=
    match label with
    | .complete _ _ (.dataAvailable (.ok _)) =>
        if label.produced x.live l' = [] then x.reads + 1 else 0
    | _ => x.reads
  more :=
    match label with
    | .complete _ sys (.dataAvailable (.ok _)) => !sys.atEndOfFile
    | _ => x.more

/-- A run whose window and whose stream are followed. -/
def Runs (C : Transfer → Label → Prop) : Transfer → Transfer → Prop :=
  Relation.ReflTransGen fun x x' =>
    ∃ label l', Step x.live label l' ∧ C x label ∧ x' = x.follow label l'

theorem Runs.invariant {C : Transfer → Label → Prop} {I : Transfer → Prop} {a b : Transfer}
    (hstep : ∀ x label l', I x → Step x.live label l' → C x label → I (x.follow label l'))
    (ha : I a) (h : Runs C a b) : I b := by
  induction h with
  | refl => exact ha
  | tail _ hs ih =>
      obtain ⟨label, l', hs, hc, rfl⟩ := hs
      exact hstep _ label l' ih hs hc

/-- A read that completes tells how many bytes it has put in memory. -/
def Truthful (_ : Transfer) (label : Label) : Prop :=
  ∀ op sys k, label = .complete op sys (.dataAvailable (.ok k)) → k = op.arrived

/-- A session between two calls. -/
structure Served (info : ServerInfo) (request : PeerMessage) (x : Transfer) : Prop where
  settled : Settled x.live
  fresh : x.live.status = .fresh → x = boot info request
  serving : x.live.listening → x.live.world.session.mode = .octet →
    x.live.world.Serving x.stream x.arriving x.blocks

variable {info : ServerInfo} {request : PeerMessage} {x : Transfer} {l' : Live}

/-- What the first call leaves of an octet session. -/
theorem serving_started {sys : Sys}
    (hl : (deliver sys .start (boot info request).live.world).listening)
    (hmode : (deliver sys .start (boot info request).live.world).world.session.mode = .octet) :
    (deliver sys .start (boot info request).live.world).world.Serving [] [] [] := by
  refine deliver_returns (P := fun t => t.session.mode = .octet → t.Serving [] [] []) ?_ hl hmode
  have blank : (boot info request).live.world.buffer.Blank :=
    ⟨rfl, rfl, rfl, rfl, Buffer.sized_of_none rfl⟩
  refine wp_bind.mpr (wp_mono (onStart_blank (w := { (boot info request).live.world with sys := sys })
    blank rfl) ?_ fun _ _ _ => trivial)
  rintro _ t ⟨ready, intake⟩
  have settled : KeepsSettings (do
      fetchData
      finish) := .bind .fetchData fun _ => .finish
  by_cases octet : t.session.mode = .octet
  · have serving : t.Serving [] [] [] := .of_blank octet ready
      (congrArg Intake.isFetchingData intake) (congrArg Intake.fetches intake)
    exact wp_mono serving.rest (fun _ _ ht _ => ht.1) fun _ _ _ => trivial
  · exact settled.wp fun _ t' ht' hm => (octet ((congrArg Settings.mode ht').symm.trans hm)).elim

/-- What a completion leaves of an octet session. -/
theorem serving_completed {pre post : List Op} {op : Op} {sys : Sys} {e : Event}
    (h : x.live.world.Serving x.stream x.arriving x.blocks)
    (ht : x.live.world.control.Tidy) (hops : x.live.world.inflight = pre ++ op :: post)
    (hr : op.Reports e) (hC : Truthful x (.complete op sys e))
    (hl : (deliver sys e { x.live.world with inflight := pre ++ post }).listening) :
    let l' := deliver sys e { x.live.world with inflight := pre ++ post }
    l'.world.Serving (x.stream ++ (Label.complete op sys e).brings x.arriving)
      ((Label.complete op sys e).arriving x.arriving)
      (x.blocks ++ (Label.complete op sys e).produced x.live l') ∧
    ∀ k, e = .dataAvailable (.ok k) → (Label.complete op sys e).produced x.live l' = [] →
      x.live.world.buffer.Incomplete x.arriving.length sys.atEndOfFile := by
  intro l'
  refine deliver_returns (P := fun t => t.Serving
    (x.stream ++ (Label.complete op sys e).brings x.arriving)
    ((Label.complete op sys e).arriving x.arriving)
    (x.blocks ++ (Label.complete op sys e).produced x.live ⟨t, .idle⟩) ∧
    ∀ k, e = .dataAvailable (.ok k) → (Label.complete op sys e).produced x.live ⟨t, .idle⟩ = [] →
      x.live.world.buffer.Incomplete x.arriving.length sys.atEndOfFile) ?_ hl
  refine wp_bind.mpr ?_
  by_cases hd : ∃ r, e = .dataAvailable r
  · obtain ⟨r, rfl⟩ := hd
    have hop : op.isFetch := by cases op <;> first | rfl | exact hr.elim
    cases r with
    | error errno =>
        refine wp_mono h.dispatch_failed ?_ fun _ _ _ => trivial
        intro _ t serving
        refine wp_mono serving.rest ?_ fun _ _ _ => trivial
        rintro _ t' ⟨serving', -⟩
        refine ⟨?_, fun k he => by simp at he⟩
        simpa [Label.brings, Label.arriving, Label.produced] using serving'
    | ok k =>
        obtain rfl := hC op sys k rfl
        refine wp_mono (h.dispatch_data ht hops hop rfl) ?_ fun _ _ _ => trivial
        rintro _ t ⟨extra, log, serving, -, -, incomplete⟩
        refine wp_mono serving.rest ?_ fun _ _ _ => trivial
        rintro _ t' ⟨serving', -, -, more, log', none_⟩
        have sent : (Label.complete op sys (.dataAvailable (.ok op.arrived))).produced x.live
            ⟨t', .idle⟩ = payloads extra := by
          show payloads (t'.log.drop x.live.world.log.length) = payloads extra
          rw [log', log, List.append_assoc, List.drop_left, payloads_append, none_, List.append_nil]
        rw [sent]
        exact ⟨serving', fun _ _ => incomplete⟩
  · have hd' : ∀ r, e ≠ .dataAvailable r := fun r hr => hd ⟨r, hr⟩
    have he : e ≠ .start := fun he => Op.not_reports_start (he ▸ hr)
    have hop : op.isFetch = false := by
      cases op <;> cases e <;> first | rfl | exact hr.elim | exact (hd' _ rfl).elim
    have kept : ({ x.live.world with inflight := pre ++ post, sys := sys } : World).Serving
        x.stream x.arriving x.blocks := by
      refine h.congr rfl rfl ?_ id
      show (pre ++ post).filter Op.isFetch = x.live.world.inflight.filter Op.isFetch
      rw [hops, List.filter_append, List.filter_append, List.filter_cons_of_neg (by simp [hop])]
    refine wp_mono (kept.dispatch_other he hd') ?_ fun _ _ _ => trivial
    intro _ t serving
    refine wp_mono serving.rest ?_ fun _ _ _ => trivial
    rintro _ t' ⟨serving', -⟩
    have quiet : (Label.complete op sys e).brings x.arriving = [] ∧
        (Label.complete op sys e).arriving x.arriving = x.arriving ∧
        (Label.complete op sys e).produced x.live ⟨t', .idle⟩ = [] := by
      cases e <;> first | exact ⟨rfl, rfl, rfl⟩ | exact (hd' _ rfl).elim
    rw [quiet.1, quiet.2.1, quiet.2.2, List.append_nil, List.append_nil]
    exact ⟨serving', fun k he => (hd' _ he).elim⟩

/-- A read puts its bytes behind those of its block. -/
theorem serving_filled {pre post : List Op} {slot offset length : ℕ} {bytes : Bytes}
    (h : x.live.world.Serving x.stream x.arriving x.blocks)
    (ht : x.live.world.control.Tidy)
    (hops : x.live.world.inflight = pre ++ .read slot offset length none :: post)
    (hlen : bytes.length ≤ length) :
    World.Serving
      { x.live.world with
        session := fillSlot x.live.world.session slot offset bytes
        inflight := pre ++ .read slot offset length (some bytes.length) :: post }
      x.stream bytes x.blocks := by
  obtain ⟨idle, last, part, loads, hs⟩ := h.reading ht hops rfl
  obtain ⟨-, fetching⟩ := ht.removeFetch hops rfl
  have flag : x.live.world.session.isFetchingData = true := fetching
  have one : (pre ++ .read slot offset length (some bytes.length) :: post).filter Op.isFetch =
      [.read slot offset length (some bytes.length)] := by
    rw [List.filter_append] at idle
    obtain ⟨hpre, hpost⟩ := List.append_eq_nil_iff.mp idle
    rw [List.filter_append, hpre, List.filter_cons_of_pos rfl, hpost, List.nil_append]
  have fits : offset + bytes.length ≤ x.live.world.buffer.blockSize.toNat := by
    have le := loads.holds.le
    have awaits := loads.awaits
    cases awaits
    omega
  refine ⟨h.mode, ⟨h.cuts.next, h.cuts.full, h.cuts.last⟩, h.sized.fill fits,
    fun _ _ => ⟨part, ?_, hs⟩, h.ended, h.sent⟩
  have filled := loads.awaits.fill loads.holds hlen
  rw [one]
  show (x.live.world.buffer.fill slot offset bytes).Loads part bytes
    x.live.world.session.isFetchingData _
  rw [flag]
  exact filled

namespace Served

theorem step {label : Label} (h : Served info request x) (hs : Step x.live label l')
    (hC : Truthful x label) : Served info request (x.follow label l') := by
  have settled := h.settled.step hs
  have kept : x.live.status ≠ .fresh → l'.world.session.mode = .octet →
      x.live.world.session.mode = .octet := fun hl hm =>
    (congrArg Settings.mode (hs.settings hl)).symm.trans hm
  -- an octet session takes the bytes of completed reads
  have takes : l'.world.session.mode = .octet →
      (x.follow label l').stream = x.stream ++ label.brings x.arriving := fun hm =>
    congrArg (x.stream ++ ·) (if_pos hm)
  cases hs with
  | start sys hf =>
      obtain rfl := h.fresh hf
      refine ⟨settled, fun hf' => (deliver_ne_fresh _ _ _ hf').elim, fun hl hm => ?_⟩
      rw [takes hm]
      exact serving_started hl hm
  | @complete pre post op sys e hl hops hr =>
      refine ⟨settled, fun hf' => (deliver_ne_fresh _ _ _ hf').elim, fun hl' hm => ?_⟩
      rw [takes hm]
      exact (serving_completed (h.serving hl (kept hl.ne_fresh hm)) (h.settled.tidy hl) hops hr hC
        hl').1
  | @expire pre post hl hops =>
      refine ⟨settled, fun hf' => (hl.ne_fresh hf').elim, fun _ hm => ?_⟩
      rw [takes hm]
      have serving := h.serving hl (kept hl.ne_fresh hm)
      show World.Serving _ (x.stream ++ []) x.arriving (x.blocks ++ [])
      rw [List.append_nil, List.append_nil]
      refine serving.congr rfl rfl ?_ id
      show (pre ++ .timeout .expired :: post).filter Op.isFetch =
        x.live.world.inflight.filter Op.isFetch
      rw [hops, List.filter_append, List.filter_append]
      rfl
  | fill bytes hl hops hlen =>
      refine ⟨settled, fun hf' => (hl.ne_fresh hf').elim, fun _ hm => ?_⟩
      rw [takes hm]
      have serving := h.serving hl (kept hl.ne_fresh hm)
      show World.Serving _ (x.stream ++ []) bytes (x.blocks ++ [])
      rw [List.append_nil, List.append_nil]
      exact serving_filled serving (h.settled.tidy hl) hops hlen

end Served

theorem served_of_runs {C : Transfer → Label → Prop} (hC : ∀ x label, C x label → Truthful x label)
    (h : Runs C (boot info request) x) : Served info request x :=
  h.invariant (fun _ _ _ h hs hc => h.step hs (hC _ _ hc))
    ⟨.boot _ _, fun _ => rfl, fun hl => by simp [Live.listening, boot, Tracked.boot, Live.boot] at hl⟩

/-! ## Replaying a schedule -/

/-- The read in flight puts `bytes` in memory: where it puts them, and what is
in flight then. -/
def fillRead (bytes : Bytes) : List Op → Option (ℕ × ℕ × List Op)
  | [] => none
  | .read slot offset length none :: ops =>
      if bytes.length ≤ length then
        some (slot, offset, .read slot offset length (some bytes.length) :: ops)
      else none
  | op :: ops => (fillRead bytes ops).map fun (slot, offset, ops) => (slot, offset, op :: ops)

/-- Take one step of a schedule, if it can be taken. -/
def perform (x : Transfer) : Label → Option Transfer
  | .fill bytes =>
      match fillRead bytes x.live.world.inflight with
      | none => none
      | some (slot, offset, ops) =>
          if x.live.listening then
            some (x.follow (.fill bytes) ⟨{ x.live.world with
              session := fillSlot x.live.world.session slot offset bytes
              inflight := ops }, x.live.status⟩)
          else none
  | label => (Server.perform x.live label).map (x.follow label)

/-- Run a schedule through. -/
def replay : List Label → Transfer → Option Transfer
  | [], x => some x
  | label :: labels, x => (perform x label).bind (replay labels)

theorem fillRead_split {bytes : Bytes} {ops ops' : List Op} {slot offset : ℕ}
    (h : fillRead bytes ops = some (slot, offset, ops')) :
    ∃ pre post length, ops = pre ++ .read slot offset length none :: post ∧
      bytes.length ≤ length ∧ ops' = pre ++ .read slot offset length (some bytes.length) :: post := by
  induction ops using fillRead.induct bytes generalizing slot offset ops' with
  | case1 => simp [fillRead] at h
  | case2 slot' offset' length ops hlen =>
      rw [fillRead, if_pos hlen] at h
      cases h
      exact ⟨[], ops, length, rfl, hlen, rfl⟩
  | case3 slot' offset' length ops hlen =>
      rw [fillRead, if_neg hlen] at h
      simp at h
  | case4 op ops hne ih =>
      rw [fillRead] at h
      · obtain ⟨⟨slot', offset', ops₁⟩, h₁, he⟩ := Option.map_eq_some_iff.mp h
        cases he
        obtain ⟨pre, post, length, rfl, hlen, rfl⟩ := ih h₁
        exact ⟨op :: pre, post, length, rfl, hlen, rfl⟩
      · exact hne

theorem perform_step {x x' : Transfer} {label : Label} (h : perform x label = some x') :
    ∃ l', Step x.live label l' ∧ x' = x.follow label l' := by
  cases label with
  | fill bytes =>
      simp only [perform] at h
      split at h
      · simp at h
      · rename_i slot offset ops hops
        obtain ⟨hl, rfl⟩ := Option.ite_none_right_eq_some.mp h |>.imp_right Option.some.inj
        obtain ⟨pre, post, length, hsplit, hlen, rfl⟩ := fillRead_split hops
        exact ⟨_, .fill bytes hl hsplit hlen, rfl⟩
  | _ =>
      obtain ⟨l', hl, rfl⟩ := Option.map_eq_some_iff.mp h
      exact ⟨l', Server.perform_step hl, rfl⟩

/-- A schedule that runs through is a run; `C` is checked on the way. -/
theorem replay_runs {C : Transfer → Label → Prop} {labels : List Label} {x x' : Transfer}
    (h : replay labels x = some x') (hC : ∀ x label, label ∈ labels → C x label) :
    Runs C x x' := by
  induction labels generalizing x with
  | nil =>
      cases h
      exact .refl
  | cons label labels ih =>
      obtain ⟨x₁, h₁, h₂⟩ := Option.bind_eq_some_iff.mp h
      obtain ⟨l', hs, rfl⟩ := perform_step h₁
      exact .head ⟨label, l', hs, hC _ _ (by simp), rfl⟩
        (ih h₂ fun x label hm => hC x label (by simp [hm]))

/-- Run a schedule through as long as its steps meet a condition. -/
def replayWhile (C : Transfer → Label → Bool) : List Label → Transfer → Option Transfer
  | [], x => some x
  | label :: labels, x =>
      if C x label then (perform x label).bind (replayWhile C labels) else none

theorem replayWhile_runs {C : Transfer → Label → Bool} {D : Transfer → Label → Prop}
    {labels : List Label} {x x' : Transfer} (h : replayWhile C labels x = some x')
    (hD : ∀ x label, label ∈ labels → C x label → D x label) : Runs D x x' := by
  induction labels generalizing x with
  | nil =>
      cases h
      exact .refl
  | cons label labels ih =>
      obtain ⟨hc, h'⟩ := Option.ite_none_right_eq_some.mp h
      obtain ⟨x₁, h₁, h₂⟩ := Option.bind_eq_some_iff.mp h'
      obtain ⟨l', hs, rfl⟩ := perform_step h₁
      exact .head ⟨label, l', hs, hD _ _ (by simp) hc, rfl⟩
        (ih h₂ fun x label hm => hD x label (by simp [hm]))

end Transfer

end Tftp.Server
