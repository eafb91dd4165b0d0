import Tftp.Client.SendFile

/-!
# Uploads block by block

A round of `send_file` is taken in two halves, so that others can act while it
waits. A run then has the blocks that went out for the first time, those that
were acknowledged, and all DATA packets with the blocks they were meant to be.
-/

namespace Tftp.Client

open Prog Act

/-! ## Halves of a round -/

/-- A client between two rounds, or in one of `send_file` with its window filled. -/
inductive Stage where
  | ready (p : Process)
  | waiting (v : World Sender)

/-- The sending phase of a round. -/
def fillRound (s : Sys) (w : World Sender) : Stage :=
  match fillWindow 65537 (w.on s) with
  | (.ok (), v) => .waiting v
  | (.error o, v) => .ready (.ended o v.request v.sent)

/-- Its receiving phase. -/
def awaitRound (a : Arrival) (v : World Sender) : Process :=
  match awaitAnswer a v with
  | (.ok (), t) => .sending t
  | (.error o, t) => .ended o t.request t.sent

/-- A round of `send_file` is its two halves. -/
theorem Process.step_halves (e : Event) (w : World Sender) :
    (Process.sending w).step e =
      match fillRound e.sys w with
      | .waiting v => awaitRound e.arrival v
      | .ready p => p := by
  unfold Process.step fillRound sendRound awaitRound
  dsimp only
  rw [bind_apply]
  generalize fillWindow 65537 (w.on e.sys) = filled
  rcases filled with ⟨_ | _, v⟩
  · rfl
  · rfl

theorem fillRound_spec {s : Sys} {w : World Sender} {I : Stage → World Sender → Prop}
    (h : wp (fillWindow 65537) (fun _ v => I (.waiting v) v)
      (fun o v => I (.ready (.ended o v.request v.sent)) v) (w.on s)) :
    I (fillRound s w) (w.on s).filled := by
  unfold wp at h
  unfold fillRound World.filled
  generalize fillWindow 65537 (w.on s) = filled at h ⊢
  rcases filled with ⟨_ | _, v⟩
  · exact h
  · exact h

theorem awaitRound_spec {a : Arrival} {v : World Sender} {I : Process → World Sender → Prop}
    (h : wp (awaitAnswer a) (fun _ t => I (.sending t) t)
      (fun o t => I (.ended o t.request t.sent) t) v) :
    I (awaitRound a v) (awaitAnswer a v).2 := by
  unfold wp at h
  unfold awaitRound
  generalize awaitAnswer a v = awaited at h ⊢
  rcases awaited with ⟨_ | _, t⟩
  · exact h
  · exact h

/-! ## Runs -/

inductive Move where
  | round (e : Event)
  | fill (sys : Sys)
  | await (a : Arrival)

/-- A client with the number of blocks it has sent for the first time, the number of
those that were acknowledged, and all its DATA packets with the blocks they are for. -/
structure Sending where
  stage : Stage
  blocks : ℕ := 0
  acked : ℕ := 0
  sends : List (ℕ × DataPacket) := []

/-- The DATA packets that go out from `w` to `t`, each for the latest block up to
`blocks` that has its number. -/
def placed (blocks : ℕ) (w t : World Sender) : List (ℕ × DataPacket) :=
  (t.packets.drop w.packets.length).map fun p => (Serial.latest blocks p.blockNumber, p)

namespace Sending

def start (c : Call) (s : Sys) : Sending := { stage := .ready (c.start s) }

/-- The first half of a round. -/
def fill (x : Sending) (sys : Sys) (w : World Sender) : Sending :=
  let v := (w.on sys).filled
  let blocks := x.blocks + (v.packets.length - w.packets.length)
  { x with
    stage := fillRound sys w
    blocks := blocks
    sends := x.sends ++ placed blocks w v }

/-- The second half. -/
def await (x : Sending) (a : Arrival) (v : World Sender) : Sending :=
  let t := (awaitAnswer a v).2
  { x with
    stage := .ready (awaitRound a v)
    acked := Serial.advance x.acked v.locals.windowBegin t.locals.windowBegin
    sends := x.sends ++ placed x.blocks v t }

/-- One move; one that does not fit the stage does nothing. -/
def step (m : Move) (x : Sending) : Sending :=
  match x.stage, m with
  | .ready (.sending w), .fill sys => x.fill sys w
  | .ready (.sending _), _ => x
  | .ready p, .round e => { x with stage := .ready (p.step e) }
  | .waiting v, .await a => x.await a v
  | _, _ => x

/-- What a move can be. -/
inductive Steps (x : Sending) : Move → Sending → Prop where
  | idle (m : Move) : (∀ v a, x.stage = .waiting v → m ≠ .await a) → Steps x m x
  | round (p : Process) (e : Event) : x.stage = .ready p → p.sender = none →
      Steps x (.round e) { x with stage := .ready (p.step e) }
  | fill (w : World Sender) (sys : Sys) : x.stage = .ready (.sending w) →
      Steps x (.fill sys) (x.fill sys w)
  | await (v : World Sender) (a : Arrival) : x.stage = .waiting v → Steps x (.await a) (x.await a v)

theorem step_steps (x : Sending) (m : Move) : x.Steps m (x.step m) := by
  obtain ⟨stage, blocks, acked, sends⟩ := x
  rcases stage with p | v
  · have ready (v : World Sender) (a : Arrival) : Stage.ready p = .waiting v → m ≠ .await a := by
      intro hx
      cases hx
    cases m with
    | round e =>
        cases p with
        | sending w => exact .idle _ ready
        | requesting file w => exact .round _ e rfl rfl
        | receiving w => exact .round _ e rfl rfl
        | ended o r sent => exact .round _ e rfl rfl
    | fill sys =>
        cases p with
        | sending w => exact .fill w sys rfl
        | requesting file w => exact .idle _ ready
        | receiving w => exact .idle _ ready
        | ended o r sent => exact .idle _ ready
    | await a =>
        cases p with
        | sending w => exact .idle _ ready
        | requesting file w => exact .idle _ ready
        | receiving w => exact .idle _ ready
        | ended o r sent => exact .idle _ ready
  · cases m with
    | await a => exact .await v a rfl
    | round e => exact .idle _ fun _ _ _ hm => by cases hm
    | fill sys => exact .idle _ fun _ _ _ hm => by cases hm

def Runs : Sending → Sending → Prop := Relation.ReflTransGen fun x y => ∃ m, y = x.step m

end Sending

/-- A packet of the `k`-th block, in its place. -/
def blockAt (size : ℕ) (file : Bytes) (k : ℕ) : ℕ × DataPacket := (k, numbered size file k)

/-- Packets of blocks that are near are put in their places. -/
theorem placed_blocks {size : ℕ} {file : Bytes} {blocks : ℕ} {w t : World Sender} {ks : List ℕ}
    (sent : t.packets = w.packets ++ ks.map (numbered size file))
    (near : ∀ k ∈ ks, k ≤ blocks ∧ blocks - k < 65536) :
    placed blocks w t = ks.map (blockAt size file) := by
  unfold placed
  rw [sent, List.drop_left, List.map_map]
  apply List.map_congr_left
  intro k hk
  obtain ⟨le, close⟩ := near k hk
  exact Prod.ext (Serial.latest_ofNat le close) rfl

section

variable {r : Request} {size : ℕ} {file : Bytes}

/-- What `send_file` needs of its request. -/
structure Request.Uploads (r : Request) (size : ℕ) : Prop where
  windowSize : r.options.windowSize = 1
  blockSize : r.options.blockSize.toNat = size
  positive : 0 < size

theorem Request.Uploads.of_base (h : r.Uploads size) {q : Request} (base : q.base = r) :
    q.Uploads size where
  windowSize := (congrArg (fun r => r.options.windowSize) base).trans h.windowSize
  blockSize := (congrArg (fun r => r.options.blockSize.toNat) base).trans h.blockSize
  positive := h.positive

/-- Where a sending phase ends: in the wait for the block it has sent, unless
something fails. -/
inductive World.Filled (w : World Sender) (r : Request) (size : ℕ) (file : Bytes) (k b : ℕ) :
    Stage → World Sender → Prop where
  | waits {v : World Sender} : v.base = r → v.locals.Holds size file (b + 1) b →
      v.packets = w.packets ++ (List.range' (k + 1) (b + 1 - k)).map (numbered size file) →
      (k = b → w.sys = {} → v.sys = {} ∧ v.locals.startTime = v.clock) →
      Filled w r size file k b (.waiting v) v
  | fails {v : World Sender} : v.request.base = r → v.packets = w.packets → w.sys ≠ {} →
      Filled w r size file k b (.ready (.ended (.returned false) v.request v.sent)) v

theorem fillRound_fills (hr : r.Uploads size) {w : World Sender} (base : w.base = r) {k b : ℕ}
    (h : w.locals.Holds size file k b) (more : b < Blocks.last size file) (sys : Sys) :
    (w.on sys).Filled r size file k b (fillRound sys w) (w.on sys).filled := by
  have hr := hr.of_base base
  apply fillRound_spec
  refine wp_mono (wp_and (fillWindow_sends (w := w.on sys) hr.windowSize hr.blockSize hr.positive h
    more) (fillWindow_base 65537 _ (w.on sys) rfl)) ?_ ?_
  · rintro _ v ⟨⟨holds, packets, prompt⟩, kept⟩
    exact .waits (kept.trans base) holds packets prompt
  · rintro o v ⟨⟨rfl, packets, -, broken⟩, kept⟩
    exact .fails (kept.trans base) packets broken

/-- Where a receiving phase ends. -/
inductive World.Awaited (v : World Sender) (r : Request) (size : ℕ) (file : Bytes) (b : ℕ)
    (a : Arrival) : Process → World Sender → Prop where
  | continues {t : World Sender} : t.base = r → v.Continues size file b a t →
      Awaited v r size file b a (.sending t) t
  | finishes {t : World Sender} {o : Outcome} : t.request.base = r → v.Finishes size file b a t o →
      Awaited v r size file b a (.ended o t.request t.sent) t

theorem awaitRound_awaits (hr : r.Uploads size) {v : World Sender} (base : v.base = r) {b : ℕ}
    (h : v.locals.Holds size file (b + 1) b) (free : ¬v.locals.Stuck) (a : Arrival) :
    v.Awaited r size file b a (awaitRound a v) (awaitAnswer a v).2 := by
  have hr := hr.of_base base
  apply awaitRound_spec
  refine wp_mono (wp_and (awaitAnswer_moves hr.windowSize hr.blockSize hr.positive h free a)
    (awaitAnswer_base a _ v rfl)) ?_ ?_
  · rintro _ t ⟨continues, kept⟩
    exact .continues (kept.trans base) continues
  · rintro o t ⟨finishes, kept⟩
    exact .finishes (kept.trans base) finishes

/-- A stuck client sends no more blocks. -/
theorem fillRound_stuck {w : World Sender} (h : w.locals.Stuck) (sys : Sys) :
    fillRound sys w = .waiting (w.on sys) := by
  have filled : fillWindow 65537 (w.on sys) = (.ok (), w.on sys) := by
    unfold fillWindow
    rw [bind_apply]
    show ((do
      let l ← locals
      if l.endOfFile = false ∧ _ then _ else _ : Act Sender Unit)) (w.on sys) = _
    rw [bind_apply]
    exact congrFun (if_neg fun open_ => absurd (open_.1.symm.trans h.1) (by decide)) _
  unfold fillRound
  rw [filled]

/-- It never succeeds. -/
theorem awaitRound_stuck {v : World Sender} (h : v.locals.Stuck) (a : Arrival) :
    (∃ t, awaitRound a v = .sending t ∧ t.locals.Stuck) ∨
      ∃ o q sent, awaitRound a v = .ended o q sent ∧ Unsuccessful o := by
  apply awaitRound_spec (I := fun p _ => (∃ t, p = .sending t ∧ t.locals.Stuck) ∨
    ∃ o q sent, p = .ended o q sent ∧ Unsuccessful o)
  refine wp_mono (awaitAnswer_stuck h a) ?_ ?_
  · intro _ t stuck
    exact .inl ⟨t, rfl, stuck⟩
  · intro o t failed
    exact .inr ⟨o, _, _, rfl, failed⟩

/-- Without a window `send_file` divides by zero. -/
theorem fillRound_zero {w : World Sender} (zero : w.request.options.windowSize = 0)
    (unread : w.locals.endOfFile = false)
    (opens : w.locals.nextSequenceNumber = w.locals.windowBegin) (sys : Sys) :
    ∃ q sent, fillRound sys w = .ready (.ended .crash q sent) := by
  apply fillRound_spec (I := fun st _ => ∃ q sent, st = .ready (.ended .crash q sent))
  unfold fillWindow
  rw [wp_bind, wp_request, wp_bind, wp_locals]
  refine wp_ite.mpr ⟨fun _ => ?_, fun closed => ?_⟩
  · rw [wp_bind]
    unfold sendNextPacket
    rw [wp_bind, wp_request, wp_bind, wp_locals]
    exact wp_ite.mpr ⟨fun _ => ⟨_, _, rfl⟩, fun some_ => (some_ zero).elim⟩
  · refine (closed ⟨unread, ?_⟩).elim
    rw [isInRange_iff]
    unfold Serial.OnArc
    have opens : (w.on sys).locals.nextSequenceNumber = (w.on sys).locals.windowBegin := opens
    rw [opens, UInt16.sub_self]
    exact UInt16.le_iff_toNat_le.mpr (Nat.zero_le _)

end

namespace Sending

/-- Where a client that sends stands in its file. -/
def Stands (r : Request) (size : ℕ) (file : Bytes) (x : Sending) : Prop :=
  match x.stage with
  | .ready (.sending w) => w.base = r ∧ w.locals.Holds size file x.blocks x.acked ∧
      x.acked < Blocks.last size file
  | .waiting v => v.base = r ∧ v.locals.Holds size file (x.acked + 1) x.acked ∧
      x.blocks = x.acked + 1
  | .ready (.ended o q _) => q.base = r ∧ (o = .returned false ∨
      o = .returned true ∧ x.acked = x.blocks ∧ x.blocks = Blocks.last size file)
  | _ => False

/-- All packets are those of the blocks they are meant to be. -/
structure Sound (r : Request) (size : ℕ) (file : Bytes) (x : Sending) : Prop where
  stands : x.Stands r size file
  window : x.blocks ≤ x.acked + 1
  sends : ∀ s ∈ x.sends, ∃ k, 0 < k ∧ k ≤ x.blocks ∧ s = blockAt size file k

/-- Behind the last block the next number is not zero. -/
def Free (x : Sending) : Prop := ∀ v, x.stage = .waiting v → ¬v.locals.Stuck

/-- What a move of `send_file` from `x` to `y` has to do. -/
structure Correct (size : ℕ) (file : Bytes) (x : Sending) (m : Move) (y : Sending) : Prop where
  first : ∀ sys, m = .fill sys → y.sends = x.sends ++
    (List.range' (x.blocks + 1) (y.blocks - x.blocks)).map (blockAt size file)
  again : ∀ a, m = .await a → ∃ ks : List ℕ, y.sends = x.sends ++ ks.map (blockAt size file) ∧
    ∀ k ∈ ks, x.acked < k ∧ k ≤ x.blocks
  ends : ∀ q sent, y.stage ≠ .ready (.ended .hang q sent) ∧ y.stage ≠ .ready (.ended .crash q sent)
  completes : ∀ v a, x.stage = .waiting v → m = .await a → x.blocks = Blocks.last size file →
    x.acked < x.blocks → v.Hears a (UInt16.ofNat x.blocks) →
      ∃ q sent, y.stage = .ready (.ended (.returned true) q sent)

section

variable {r : Request} {size : ℕ} {file : Bytes} {x : Sending} {w v : World Sender}

theorem Sound.fills (hr : r.Uploads size) (h : x.Sound r size file)
    (hx : x.stage = .ready (.sending w)) (sys : Sys) :
    (x.fill sys w).Sound r size file ∧ (x.fill sys w).sends = x.sends ++
      (List.range' (x.blocks + 1) ((x.fill sys w).blocks - x.blocks)).map (blockAt size file) := by
  obtain ⟨stands, window, sends⟩ := h
  unfold Stands at stands
  rw [hx] at stands
  obtain ⟨base, holds, more⟩ := stands
  have filled := fillRound_fills hr base holds more sys
  unfold fill
  dsimp only
  generalize fillRound sys w = stage at filled ⊢
  generalize (w.on sys).filled = v at filled ⊢
  cases filled with
  | waits base holds' packets prompt =>
      have packets : v.packets = w.packets ++ _ := packets
      have window := holds.window
      have blocks : x.blocks + (v.packets.length - w.packets.length) = x.acked + 1 := by
        rw [packets, List.length_append, List.length_map, List.length_range']
        omega
      rw [blocks]
      have fresh : placed (x.acked + 1) w v =
          (List.range' (x.blocks + 1) (x.acked + 1 - x.blocks)).map (blockAt size file) := by
        apply placed_blocks packets
        intro k hk
        have range := List.mem_range'_1.mp hk
        have acked := holds.acked_le
        omega
      rw [fresh]
      refine ⟨⟨⟨base, holds', rfl⟩, le_rfl, ?_⟩, rfl⟩
      intro s hs
      rcases List.mem_append.mp hs with old | new
      · obtain ⟨k, pos, le, rfl⟩ := sends s old
        exact ⟨k, pos, le.trans window, rfl⟩
      · obtain ⟨k, hk, rfl⟩ := List.mem_map.mp new
        have range := List.mem_range'_1.mp hk
        refine ⟨k, by omega, ?_, rfl⟩
        show k ≤ x.acked + 1
        omega
  | fails base packets broken =>
      have packets : v.packets = w.packets := packets
      have none_ : placed (x.blocks + (v.packets.length - w.packets.length)) w v = [] := by
        unfold placed
        rw [packets, List.drop_length, List.map_nil]
      rw [none_, packets, Nat.sub_self, Nat.add_zero, Nat.sub_self, List.append_nil]
      refine ⟨⟨⟨base, .inl rfl⟩, window, sends⟩, ?_⟩
      exact (List.append_nil _).symm

theorem acked_same {t : World Sender} {k b k' b' : ℕ} (hv : v.locals.Holds size file k b)
    (ht : t.locals.Holds size file k' b') (le : b ≤ b') (near : b' ≤ b + 1) :
    Serial.advance b v.locals.windowBegin t.locals.windowBegin = b' := by
  rw [hv.begins, ht.begins]
  rcases Nat.eq_or_lt_of_le le with rfl | lt
  · exact Serial.advance_self _ _
  · obtain rfl : b' = b + 1 := le_antisymm near lt
    rw [Serial.ofNat_succ (b + 1)]
    exact Serial.advance_succ _ _

theorem Sound.awaits (hr : r.Uploads size) (h : x.Sound r size file) (hx : x.stage = .waiting v)
    (free : ¬v.locals.Stuck) (a : Arrival) :
    (x.await a v).Sound r size file ∧
      (∃ ks : List ℕ, (x.await a v).sends = x.sends ++ ks.map (blockAt size file) ∧
        ∀ k ∈ ks, x.acked < k ∧ k ≤ x.blocks) ∧
      (x.blocks = Blocks.last size file → v.Hears a (UInt16.ofNat x.blocks) →
        ∃ q sent, (x.await a v).stage = .ready (.ended (.returned true) q sent)) ∧
      ((x.await a v).acked = x.acked ∨
        (x.await a v).acked = x.acked + 1 ∧ v.Hears a (UInt16.ofNat (x.acked + 1))) := by
  obtain ⟨stands, window, sends⟩ := h
  unfold Stands at stands
  rw [hx] at stands
  obtain ⟨base, holds, blocks⟩ := stands
  have awaited := awaitRound_awaits hr base holds free a
  unfold await
  dsimp only
  generalize awaitRound a v = process at awaited ⊢
  generalize (awaitAnswer a v).2 = t at awaited ⊢
  have nothing (same : t.packets = v.packets) : placed x.blocks v t = [] := by
    unfold placed
    rw [same, List.drop_length, List.map_nil]
  rw [blocks] at sends nothing ⊢
  cases awaited with
  | continues base continues =>
      cases continues with
      | waits deaf holds' same =>
          rw [nothing same, List.append_nil, acked_same holds holds' le_rfl (Nat.le_succ _)]
          exact ⟨⟨⟨base, holds', holds.within⟩, le_rfl, sends⟩, ⟨[], (List.append_nil _).symm, by simp⟩,
            fun _ hears => absurd hears deaf, .inl rfl⟩
      | again deaf holds' sent =>
          have again : placed (x.acked + 1) v t = [x.acked + 1].map (blockAt size file) := by
            apply placed_blocks sent
            intro k hk
            obtain rfl := List.mem_singleton.mp hk
            omega
          rw [again, acked_same holds holds' le_rfl (Nat.le_succ _)]
          refine ⟨⟨⟨base, holds', holds.within⟩, le_rfl, ?_⟩, ⟨[x.acked + 1], rfl, ?_⟩,
            fun _ hears => absurd hears deaf, .inl rfl⟩
          · intro s hs
            rcases List.mem_append.mp hs with old | new
            · exact sends s old
            · obtain rfl := List.mem_singleton.mp new
              exact ⟨x.acked + 1, Nat.succ_pos _, le_rfl, rfl⟩
          · intro k hk
            obtain rfl := List.mem_singleton.mp hk
            exact ⟨Nat.lt_succ_self _, le_rfl⟩
      | moves heard holds' more same =>
          rw [nothing same, List.append_nil, acked_same holds holds' (Nat.le_succ _) le_rfl]
          exact ⟨⟨⟨base, holds', lt_of_le_of_ne holds'.within more⟩, Nat.le_succ _, sends⟩,
            ⟨[], (List.append_nil _).symm, by simp⟩, fun atEnd _ => absurd atEnd more,
            .inr ⟨rfl, heard⟩⟩
  | finishes base finishes =>
      cases finishes with
      | fails deaf holds' same =>
          rw [nothing same, List.append_nil, acked_same holds holds' le_rfl (Nat.le_succ _)]
          exact ⟨⟨⟨base, .inl rfl⟩, le_rfl, sends⟩, ⟨[], (List.append_nil _).symm, by simp⟩,
            fun _ hears => absurd hears deaf, .inl rfl⟩
      | completes heard holds' atEnd same =>
          rw [nothing same, List.append_nil, acked_same holds holds' (Nat.le_succ _) le_rfl]
          exact ⟨⟨⟨base, .inr ⟨rfl, rfl, atEnd⟩⟩, Nat.le_succ _, sends⟩,
            ⟨[], (List.append_nil _).symm, by simp⟩, fun _ _ => ⟨_, _, rfl⟩, .inr ⟨rfl, heard⟩⟩

theorem Sound.ends (h : x.Sound r size file) (q : Request) (sent : List (Address × Message)) :
    x.stage ≠ .ready (.ended .hang q sent) ∧ x.stage ≠ .ready (.ended .crash q sent) := by
  have stands := h.stands
  unfold Stands at stands
  constructor
  · intro hx
    rw [hx] at stands
    rcases stands.2 with failed | ⟨returned, -⟩
    · cases failed
    · cases returned
  · intro hx
    rw [hx] at stands
    rcases stands.2 with failed | ⟨returned, -⟩
    · cases failed
    · cases returned

/-- Every move of a sound client does what it has to do, and leaves it sound. -/
theorem Sound.step (hr : r.Uploads size) (h : x.Sound r size file) (free : x.Free) {m : Move}
    {y : Sending} (hs : x.Steps m y) : y.Sound r size file ∧ Correct size file x m y := by
  have same (hm : ∀ v a, x.stage = .waiting v → m ≠ .await a) : Correct size file x m x := by
    constructor
    case first =>
      intro sys _
      rw [Nat.sub_self]
      exact (List.append_nil _).symm
    case again =>
      intro a _
      exact ⟨[], (List.append_nil _).symm, by simp⟩
    case ends => exact h.ends
    case completes =>
      intro v a hx hm'
      exact (hm v a hx hm').elim
  cases hs with
  | idle m hm => exact ⟨h, same hm⟩
  | round p e hx hp =>
      have stands := h.stands
      unfold Stands at stands
      rw [hx] at stands
      cases p with
      | requesting f w => exact stands.elim
      | receiving w => exact stands.elim
      | sending w => cases hp
      | ended o q sent =>
          have still : { x with stage := .ready ((Process.ended o q sent).step e) } = x := by
            obtain ⟨stage, blocks, acked, sends⟩ := x
            obtain rfl : stage = .ready (.ended o q sent) := hx
            rfl
          rw [still]
          exact ⟨h, same fun _ _ _ hm => by cases hm⟩
  | fill w sys hx =>
      obtain ⟨sound, sends⟩ := h.fills hr hx sys
      refine ⟨sound, ?_⟩
      constructor
      case first =>
        intro _ _
        exact sends
      case again =>
        intro a hm
        cases hm
      case ends => exact sound.ends
      case completes =>
        intro v a hx'
        rw [hx] at hx'
        cases hx'
  | await v a hx =>
      obtain ⟨sound, again, completes, -⟩ := h.awaits hr hx (free v hx) a
      refine ⟨sound, ?_⟩
      constructor
      case first =>
        intro sys hm
        cases hm
      case again =>
        intro _ _
        exact again
      case ends => exact sound.ends
      case completes =>
        intro v' a' hx' hm atEnd _ hears
        cases hm
        obtain rfl : v = v' := Stage.waiting.inj (hx.symm.trans hx')
        exact completes atEnd hears

theorem Sound.free (h : x.Sound r size file) (hl : Blocks.last size file % 65536 ≠ 65535) :
    x.Free := by
  intro v hx stuck
  have stands := h.stands
  unfold Stands at stands
  rw [hx] at stands
  exact hl (stands.2.1.stuck_iff.mp stuck).2

end

end Sending

/-! ## Every length of a file -/

/-- The first round of `send_file`. -/
structure World.Starts (w : World Sender) (file : Bytes) : Prop where
  locals : ∃ heap, w.locals = Sender.init w.request file heap
  settings : w.request.settings.Sound
  put : w.request.requestType = .put
  inet : w.request.serverAddr.isInet = true
  buffer : 4 ≤ w.request.recvBufferSize

/-- The size of the blocks of an upload. -/
def World.size (w : World Sender) : ℕ := w.request.options.blockSize.toNat

section

variable {w v : World Sender} {file : Bytes}

theorem World.Starts.uploads (h : w.Starts file) : w.base.Uploads w.size where
  windowSize := (h.settings.upload h.put).1
  blockSize := rfl
  positive := lt_of_lt_of_le (by decide) h.settings.blockSize

theorem World.Starts.timed (h : w.Starts file) : Timed w := by
  obtain ⟨heap, locals⟩ := h.locals
  let asked : World Requester := { request := w.request, locals := {}, clock := w.clock }
  have timed : Timed (asked.answered.enter (Sender.init w.request file heap)) :=
    timed_init h.settings h.put
  constructor
  case windowSize => exact timed.windowSize
  case rto =>
    rw [locals]
    exact timed.rto
  case adaptive =>
    rw [locals]
    exact timed.adaptive
  case smoothedRtt =>
    rw [locals]
    exact timed.smoothedRtt
  case timer =>
    rw [locals]
    exact timed.timer

/-- An ACK that comes at once is processed. -/
theorem World.hears_ack (inet : v.request.serverAddr.isInet = true)
    (buffer : 4 ≤ v.request.recvBufferSize) (timed : Timed v) (idle : v.sys = {})
    (starts : v.locals.startTime = v.clock) (n : UInt16) :
    v.Hears (.datagram ⟨v.request.serverAddr, (Packet.ack n).bytes⟩) n := by
  have whole : v.request.bytesReceived ⟨v.request.serverAddr, (Packet.ack n).bytes⟩ = 4 := by
    unfold Request.bytesReceived
    rw [length_ack]
    exact Nat.min_eq_left buffer
  refine ⟨_, rfl, ?_, ?_, sockaddrEquals_iff.mpr ⟨rfl, inet⟩, ?_, ?_⟩
  · have now : v.ticked.clock = v.clock := by
      unfold World.ticked
      rw [idle]
      exact Nat.add_zero _
    unfold World.remainingTime
    rw [now, starts, sub_self, sub_zero]
    exact timed.rto
  · unfold World.answer
    rw [idle]
    rfl
  · rw [Request.readU16_received (by omega)]
    exact opcode_ack n
  · unfold World.acknowledgedNumber
    rw [Request.readU16_received (by omega)]
    exact blockNumber_ack n

end

namespace Sending

/-- A client that begins to send. -/
def begins (w : World Sender) : Sending := { stage := .ready (.sending w) }

variable {w v : World Sender} {file : Bytes} {x : Sending}

theorem Sound.begin (h : ∃ heap, w.locals = Sender.init w.request file heap) (size : ℕ) :
    (begins w).Sound w.base size file := by
  obtain ⟨heap, locals⟩ := h
  refine ⟨⟨rfl, ?_, Nat.succ_pos _⟩, Nat.zero_le _, fun s hs => by cases hs⟩
  show w.locals.Holds size file 0 0
  rw [locals]
  exact Sender.holds_init _ _ _ _

theorem Sound.of_runs (h : w.Starts file) (hl : Blocks.last w.size file % 65536 ≠ 65535)
    (runs : Runs (begins w) x) : x.Sound w.base w.size file := by
  induction runs with
  | refl => exact .begin h.locals _
  | @tail y z _ hs ih =>
      obtain ⟨m, rfl⟩ := hs
      exact (ih.step h.uploads (ih.free hl) (y.step_steps m)).1

/-- So far everything that was sent is acknowledged. -/
structure Reaches (w : World Sender) (file : Bytes) (j : ℕ) (x : Sending) (t : World Sender) :
    Prop where
  stage : x.stage = .ready (.sending t)
  blocks : x.blocks = j
  acked : x.acked = j
  base : t.base = w.base
  holds : t.locals.Holds w.size file j j
  timed : Timed t

/-- The next block is sent, and its ACK can be processed at once. -/
theorem Reaches.fill (h : w.Starts file) {j : ℕ} (hj : j < Blocks.last w.size file)
    {t : World Sender} (hx : Reaches w file j x t) :
    ∃ v, x.fill {} t = { x with stage := .waiting v, blocks := j + 1, sends := (x.fill {} t).sends } ∧
      v.base = w.base ∧ v.locals.Holds w.size file (j + 1) j ∧ Timed v ∧
      ∀ n, v.Hears (.datagram ⟨v.request.serverAddr, (Packet.ack n).bytes⟩) n := by
  have filled := fillRound_fills h.uploads hx.base hx.holds hj {}
  have timed : ∀ v, fillRound {} t = .waiting v → Timed v := by
    have calm : Timed (t.on {}) := ⟨hx.timed.1, hx.timed.2, hx.timed.3, hx.timed.4, hx.timed.5⟩
    apply fillRound_spec (I := fun stage _ => ∀ v, stage = .waiting v → Timed v)
    refine wp_mono (calm_fillWindow 65537 _ calm) ?_ ?_
    · rintro _ v timed v' hv
      cases hv
      exact timed
    · rintro o v _ v' hv
      cases hv
  have stage : (x.fill {} t).stage = fillRound {} t := rfl
  have blocks : (x.fill {} t).blocks =
      x.blocks + ((t.on {}).filled.packets.length - t.packets.length) := rfl
  generalize fillRound {} t = next at filled timed stage
  generalize (t.on {}).filled = v at filled blocks
  cases filled with
  | waits base holds packets prompt =>
      obtain ⟨idle, starts⟩ := prompt rfl rfl
      have inet : v.request.serverAddr.isInet = true :=
        (congrArg (fun r => r.serverAddr.isInet) base).trans h.inet
      have buffer : 4 ≤ v.request.recvBufferSize :=
        h.buffer.trans (congrArg Request.recvBufferSize base).ge
      have timed := timed v rfl
      refine ⟨v, ?_, base, holds, timed, fun n => World.hears_ack inet buffer timed idle starts n⟩
      have packets : v.packets = t.packets ++ _ := packets
      have one : x.blocks + (v.packets.length - t.packets.length) = j + 1 := by
        rw [packets, hx.blocks, List.length_append, List.length_map, List.length_range']
        omega
      rw [one] at blocks
      rw [← stage, ← blocks]
      rfl
  | fails _ _ broken => exact (broken rfl).elim

/-- With every block acknowledged at once a client gets to its last one. -/
theorem exists_reaches (h : w.Starts file) {j : ℕ} (hj : j < Blocks.last w.size file) :
    ∃ x t, Runs (Sending.begins w) x ∧ Reaches w file j x t := by
  induction j with
  | zero =>
      obtain ⟨-, holds, -⟩ := (Sound.begin h.locals w.size).stands
      exact ⟨begins w, w, .refl, ⟨rfl, rfl, rfl, rfl, holds, h.timed⟩⟩
  | succ j ih =>
      obtain ⟨x, t, runs, hx⟩ := ih (by omega)
      obtain ⟨v, filled, base, holds, timed, hears⟩ := hx.fill h (by omega)
      have free : ¬v.locals.Stuck := fun stuck => absurd (holds.stuck_iff.mp stuck).1 hj.ne
      let a : Arrival := .datagram ⟨v.request.serverAddr, (Packet.ack (UInt16.ofNat (j + 1))).bytes⟩
      have heard : v.Hears a (UInt16.ofNat (j + 1)) := hears _
      have fill : x.step (.fill {}) = x.fill {} t := by
        unfold Sending.step
        rw [hx.stage]
      have await : (x.step (.fill {})).step (.await a) = (x.fill {} t).await a v := by
        rw [fill, filled]
        rfl
      have calm : ∀ u, awaitRound a v = .sending u → Timed u := by
        apply awaitRound_spec (I := fun p _ => ∀ u, p = .sending u → Timed u)
        refine wp_mono (calm_awaitAnswer a v timed) ?_ ?_
        · rintro _ u timed u' hu
          cases hu
          exact timed
        · rintro o u _ u' hu
          cases hu
      have awaited := awaitRound_awaits h.uploads base holds free a
      have stage : ((x.fill {} t).await a v).stage = .ready (awaitRound a v) := rfl
      have acked : ((x.fill {} t).await a v).acked =
          Serial.advance j v.locals.windowBegin (awaitAnswer a v).2.locals.windowBegin := by
        rw [← hx.acked]
        rfl
      have blocks : ((x.fill {} t).await a v).blocks = j + 1 := congrArg Sending.blocks filled
      refine ⟨(x.fill {} t).await a v, ?_⟩
      generalize awaitRound a v = process at awaited calm stage
      generalize (awaitAnswer a v).2 = u at awaited acked
      cases awaited with
      | continues base continues =>
          cases continues with
          | waits deaf => exact (deaf heard).elim
          | again deaf => exact (deaf heard).elim
          | moves _ holds' more _ =>
              rw [acked_same holds holds' (Nat.le_succ _) le_rfl] at acked
              refine ⟨u, ?_, stage, blocks, acked, base, holds', calm u rfl⟩
              exact (runs.tail ⟨_, rfl⟩).tail ⟨_, await.symm⟩
      | finishes _ finishes =>
          cases finishes with
          | fails deaf => exact (deaf heard).elim
          | completes _ _ atEnd _ => exact absurd atEnd hj.ne

/-- Where the number of the last block is one below a multiple of `2 ^ 16`, its ACK
does not complete the transfer. -/
theorem last_ack_ignored (h : w.Starts file) (wraps : Blocks.last w.size file % 65536 = 65535) :
    ¬∀ x, Runs (begins w) x → ∀ m, Correct w.size file x m (x.step m) := by
  intro correct
  obtain ⟨j, last⟩ : ∃ j, Blocks.last w.size file = j + 1 := ⟨_, rfl⟩
  obtain ⟨x, t, runs, hx⟩ := exists_reaches h (j := j) (by omega)
  obtain ⟨v, filled, base, holds, timed, hears⟩ := hx.fill h (by omega)
  have stuck : v.locals.Stuck := holds.stuck_iff.mpr ⟨last.symm, wraps⟩
  have fill : x.step (.fill {}) = x.fill {} t := by
    unfold Sending.step
    rw [hx.stage]
  have runs : Runs (begins w) (x.fill {} t) := runs.tail ⟨_, fill.symm⟩
  let a : Arrival := .datagram ⟨v.request.serverAddr, (Packet.ack (UInt16.ofNat (j + 1))).bytes⟩
  have completes := (correct _ runs (.await a)).completes v a
  rw [filled] at completes
  obtain ⟨q, sent, ended⟩ := completes rfl rfl last.symm (hx.acked.trans_lt (Nat.lt_succ_self j))
    (hears _)
  have never : ∀ q sent, awaitRound a v ≠ .ended (.returned true) q sent := by
    apply awaitRound_spec (I := fun p _ => ∀ q sent, p ≠ .ended (.returned true) q sent)
    refine wp_mono (awaitAnswer_stuck stuck _) ?_ ?_
    · rintro _ u _ q sent hu
      cases hu
    · rintro o u failed q sent hu
      cases hu
      exact failed rfl
  exact never q sent (Stage.ready.inj ended)

/-- `send_file` is right about a file, whatever comes in, exactly if the number of
its last block is not one below a multiple of `2 ^ 16`. -/
theorem send_file_correct_iff (h : w.Starts file) :
    (∀ x, Runs (begins w) x → ∀ m, Correct w.size file x m (x.step m)) ↔
      Blocks.last w.size file % 65536 ≠ 65535 := by
  constructor
  · intro correct wraps
    exact last_ack_ignored h wraps correct
  · intro hl x runs m
    have sound := Sound.of_runs h hl runs
    exact (sound.step h.uploads (sound.free hl) (x.step_steps m)).2

/-- The request of an upload in blocks of eight bytes, once a server has answered. -/
def smallBlocks : Request :=
  { plainUpload.request with
    options := optionsInit .put { blockSize := some 8 }
    recvTimeout := defaultTimeoutS
    serverAddr := .inet 0 1069 }

/-- Its first round. -/
def firstRound (file : Bytes) : World Sender :=
  { request := smallBlocks, locals := Sender.init smallBlocks file [] }

theorem firstRound_starts (file : Bytes) : (firstRound file).Starts file := by
  have sound : smallBlocks.settings.Sound :=
    ⟨by decide, by decide, by decide, by decide, fun _ => ⟨rfl, rfl⟩⟩
  exact ⟨⟨[], rfl⟩, sound, rfl, rfl, (by decide : 4 ≤ smallBlocks.recvBufferSize)⟩

/-- A file of two blocks is sent right. -/
theorem two_blocks_sent_right : Blocks.last 8 (List.replicate 9 (65 : UInt8)) = 2 ∧
    ∀ x, Runs (begins (firstRound (List.replicate 9 65))) x →
      ∀ m, Correct 8 (List.replicate 9 65) x m (x.step m) :=
  ⟨by decide, (send_file_correct_iff (firstRound_starts (List.replicate 9 65))).mpr (by decide)⟩

/-- One of 65535 blocks is not. -/
theorem wrapped_file_never_completes : ¬∀ (w : World Sender) (file : Bytes), w.Starts file →
    ∀ x, Runs (begins w) x → ∀ m, Correct w.size file x m (x.step m) := by
  intro all
  refine last_ack_ignored (firstRound_starts (List.replicate 524272 0)) ?_
    (all _ _ (firstRound_starts (List.replicate 524272 0)))
  rw [Blocks.last, List.length_replicate]
  rfl

end Sending

end Tftp.Client
