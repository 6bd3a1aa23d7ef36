import Moab.Framework.Search
import Moab.Tasks.Isolation

namespace Moab.Nonclustered

section Routing

variable {n size : Nat}

/-- A place in the keyspace that the shards of an application divide among them. -/
abbrev ShardKey := UInt32

def keyspacePerApplication : Nat := UInt32.size

/-- The keys that the core of an adapter serves. -/
structure Bounds where
  lowerBound : ShardKey
  upperBound : ShardKey

/-- The search among the n adapters of an application, the same for both applications. -/
def findAdapter (n : Nat) (adapters : Nat → Bounds) (shardKey : ShardKey) : Option Nat :=
  match search n (fun i => (adapters i).lowerBound > shardKey) with
  | 0 => none
  | i + 1 => if shardKey ≤ (adapters i).upperBound then some i else none

/-- The adapters of an application. The source panics where the number of shards is refused. -/
def newAdapters (shardsPerApp : Nat) : Option (Nat → Bounds) :=
  if shardsPerApp < 1 ∨ shardsPerApp > keyspacePerApplication ∨
    shardsPerApp &&& (shardsPerApp - 1) ≠ 0 then none
  else
    let shardSize := keyspacePerApplication / shardsPerApp
    some (fun i => ⟨.ofNat (i * shardSize), .ofNat ((i + 1) * shardSize - 1)⟩)

variable {adapters : Nat → Bounds}

/-- The keyspace is divided into n ranges of one size, in order. -/
structure Divided (n : Nat) (adapters : Nat → Bounds) (size : Nat) : Prop where
  whole : n * size = UInt32.size
  lower : ∀ i, i < n → (adapters i).lowerBound.toNat = i * size
  upper : ∀ i, i < n → (adapters i).upperBound.toNat + 1 = (i + 1) * size

/-- A power of two divides the keyspace, so that nothing of it is left over. -/
theorem newAdapters_divided (h : newAdapters n = some adapters) :
    ∃ size, Divided n adapters size := by
  unfold newAdapters at h
  split_ifs at h with hn
  obtain rfl := Option.some.inj h
  simp only [not_or, not_lt, not_not] at hn
  obtain ⟨hpos, hle, hpow⟩ := hn
  obtain ⟨k, hk⟩ := (Nat.and_sub_one_eq_zero_iff_isPowerOfTwo (by omega)).mp hpow
  have hexp : k ≤ 32 := (Nat.pow_le_pow_iff_right (by omega)).mp (hk ▸ hle)
  have hwhole : n * (keyspacePerApplication / n) = UInt32.size :=
    Nat.mul_div_cancel' (hk ▸ Nat.pow_dvd_pow 2 hexp)
  have hsize : 0 < keyspacePerApplication / n := Nat.div_pos hle hpos
  generalize keyspacePerApplication / n = size at *
  have hrange : ∀ i, i < n → (i + 1) * size ≤ UInt32.size ∧ (i + 1) * size = i * size + size :=
    fun i hi => ⟨hwhole ▸ Nat.mul_le_mul_right size hi, Nat.succ_mul i size⟩
  refine ⟨size, hwhole, fun i hi => ?_, fun i hi => ?_⟩
  · have hends := hrange i hi
    exact UInt32.toNat_ofNat_of_lt' (by omega)
  · have hends := hrange i hi
    have hlast : (UInt32.ofNat ((i + 1) * size - 1)).toNat = (i + 1) * size - 1 :=
      UInt32.toNat_ofNat_of_lt' (by omega)
    dsimp only
    omega

/-- The search finds the range that the key falls in. -/
theorem Divided.find (h : Divided n adapters size) (shardKey : ShardKey) :
    ∃ i, i < n ∧ findAdapter n adapters shardKey = some i ∧
      i * size ≤ shardKey.toNat ∧ shardKey.toNat < (i + 1) * size := by
  have hkey := shardKey.toNat_lt_size
  have hwhole := h.whole
  have hbegins : ∀ i, i < n → ((adapters i).lowerBound > shardKey ↔ shardKey.toNat < i * size) := by
    intro i hi
    rw [gt_iff_lt, UInt32.lt_iff_toNat_lt, h.lower i hi]
  have hfound : Boundary n (fun i => (adapters i).lowerBound > shardKey) _ := search_boundary (by
    intro i j hij hj hi
    have hmul := Nat.mul_le_mul_right size hij
    simp only [decide_eq_true_eq, hbegins i (by omega), hbegins j hj] at hi ⊢
    omega)
  unfold findAdapter
  cases hs : search n (fun i => (adapters i).lowerBound > shardKey) with
  | zero =>
    -- the first range begins with the first key
    have hn : 0 < n := Nat.pos_of_mul_pos_right (by omega : 0 < n * size)
    have hzero := (hbegins 0 hn).mp (of_decide_eq_true (hfound.after 0 (by omega) hn))
    omega
  | succ i =>
    rw [hs] at hfound
    obtain ⟨hle, hbefore, hafter⟩ := hfound
    have hlower : i * size ≤ shardKey.toNat := by
      have hbegun := of_decide_eq_false (hbefore i (by omega))
      rw [hbegins i (by omega)] at hbegun
      omega
    have hupper : shardKey.toNat < (i + 1) * size := by
      by_cases hlast : i + 1 < n
      · exact (hbegins _ hlast).mp (of_decide_eq_true (hafter _ (by omega) hlast))
      · rw [show i + 1 = n by omega]
        omega
    have hend := h.upper i (by omega)
    have hwithin : shardKey ≤ (adapters i).upperBound := UInt32.le_iff_toNat_le.mpr (by omega)
    exact ⟨i, by omega, if_pos hwithin, hlower, hupper⟩

theorem Divided.find_iff (h : Divided n adapters size) (shardKey : ShardKey) {j : Nat}
    (hj : j < n) : findAdapter n adapters shardKey = some j ↔
      (adapters j).lowerBound ≤ shardKey ∧ shardKey ≤ (adapters j).upperBound := by
  obtain ⟨i, _, hfound, hlower, hupper⟩ := h.find shardKey
  have hend := h.upper j hj
  rw [hfound, Option.some_inj, UInt32.le_iff_toNat_le, UInt32.le_iff_toNat_le, h.lower j hj]
  constructor
  · rintro rfl
    omega
  · intro hin
    have hquotient := Nat.div_eq_of_lt_le hin.1 (by omega : shardKey.toNat < (j + 1) * size)
    exact (Nat.div_eq_of_lt_le hlower hupper).symm.trans hquotient

end Routing

section Serving

/-- A stub as it is made for the number of shards, with the hash and the pages that it uses. -/
structure Stub where
  getShardKey : Bytes → ShardKey
  pager : Pager
  shardsPerApp : Nat
  adapters : Nat → Bounds
  made : newAdapters shardsPerApp = some adapters

instance : Inhabited Stub := ⟨⟨default, plainPages, 16, _, rfl⟩⟩

def replies {σ ρ α : Type} (serve : σ → ρ → σ × α) : σ → List ρ → List α
  | _, [] => []
  | s, r :: rs => (serve s r).2 :: replies serve (serve s r).1 rs

namespace Stub

/-- Every shard key is in the range of exactly one adapter, and the search finds this one. -/
theorem findAdapter_routes (stub : Stub) (shardKey : ShardKey) :
    ∃ i, i < stub.shardsPerApp ∧ findAdapter stub.shardsPerApp stub.adapters shardKey = some i ∧
      ∀ j, j < stub.shardsPerApp →
        ((stub.adapters j).lowerBound ≤ shardKey ∧
          shardKey ≤ (stub.adapters j).upperBound ↔ j = i) := by
  obtain ⟨size, hdiv⟩ := newAdapters_divided stub.made
  obtain ⟨i, hi, hfound, _⟩ := hdiv.find shardKey
  refine ⟨i, hi, hfound, fun j hj => ?_⟩
  rw [← hdiv.find_iff shardKey hj, hfound, Option.some_inj, eq_comm]

def byAccountAndQueue (stub : Stub) (q : QueueId) : ShardKey :=
  stub.getShardKey (uint64 q.accountId ++ uint64 q.queueId)

def findTasksAdapter (stub : Stub) (q : QueueId) : Option Nat :=
  findAdapter stub.shardsPerApp stub.adapters (stub.byAccountAndQueue q)

variable [OrderedStore] {cores : Nat → State} {s : State}

/-- A call on the tasks core of the shard of its queue. Without a shard the call fails. -/
def serve (stub : Stub) (cores : Nat → State) (r : Request) :
    (Nat → State) × Option (Except CoreError Reply) :=
  match stub.findTasksAdapter r.queueId with
  | none => (cores, none)
  | some i =>
    (Function.update cores i (Moab.serve stub.pager (cores i) r).1,
      some (Moab.serve stub.pager (cores i) r).2)

def serveAll (stub : Stub) (cores : Nat → State) (rs : List Request) : Nat → State :=
  rs.foldl (fun cores r => (stub.serve cores r).1) cores

/-- The rows of one core divided among many: each has those of the queues routed to it. -/
structure Parts (stub : Stub) (cores : Nat → State) (s : State) : Prop where
  proper : s.Proper
  rows : ∀ i a, (cores i).value a = if stub.findTasksAdapter a.queue = some i
    then s.value a else none

namespace Parts

variable {stub : Stub}

theorem empty : stub.Parts (fun _ => State.empty) State.empty where
  proper := State.proper_empty
  rows i a := by
    have habsent : State.empty.value a = none :=
      Option.eq_none_iff_forall_ne_some.mpr (fun v hv => by
      cases a <;> simp [State.value, State.empty, presence] at hv)
    rw [habsent, ite_self]

theorem core_proper (h : stub.Parts cores s) (i : Nat) : (cores i).Proper := by
  intro a v hv
  rw [h.rows] at hv
  exact h.proper a v (Option.ite_none_right_eq_some.mp hv).2

/-- The core that is called has all rows of the queue, so that it answers as the one core. -/
theorem serve (h : stub.Parts cores s) (r : Request) :
    (stub.serve cores r).2 = some (Moab.serve stub.pager s r).2 ∧
      stub.Parts (stub.serve cores r).1 (Moab.serve stub.pager s r).1 := by
  obtain ⟨size, hdiv⟩ := newAdapters_divided stub.made
  obtain ⟨i, hi⟩ : ∃ i, stub.findTasksAdapter r.queueId = some i :=
    (hdiv.find _).imp (fun _ hfind => hfind.2.1)
  have hpaired := serve_paired stub.pager h.proper (fun a ha => by rw [h.rows, ha, if_pos hi]) rfl
  unfold Stub.serve
  rw [hi]
  refine ⟨congrArg some hpaired.2.symm, serve_proper h.proper, fun j a => ?_⟩
  dsimp only
  by_cases ha : a.queue = r.queueId
  · obtain rfl | hj := eq_or_ne j i
    · rw [Function.update_self, ha, if_pos hi, hpaired.1.same a ha]
    · rw [Function.update_of_ne hj, h.rows]
      simp [ha, hi, hj.symm]
  · rw [serve_frame h.proper ha, ← h.rows]
    obtain rfl | hj := eq_or_ne j i
    · rw [Function.update_self, serve_frame (h.core_proper j) ha]
    · rw [Function.update_of_ne hj]

/-- Run: the cores go on as parts of the one core. -/
theorem serveAll (h : stub.Parts cores s) (rs : List Request) :
    replies stub.serve cores rs = (replies (Moab.serve stub.pager) s rs).map some ∧
      stub.Parts (stub.serveAll cores rs) (Moab.serveAll stub.pager s rs) := by
  induction rs generalizing cores s with
  | nil => exact ⟨rfl, h⟩
  | cons r rs ih =>
    obtain ⟨hreply, h'⟩ := h.serve r
    obtain ⟨hreplies, hparts⟩ := ih h'
    exact ⟨congrArg₂ List.cons hreply hreplies, hparts⟩

end Parts

/-- The number of shards does not show: whatever it is, the calls on the queues of the tasks
application are answered as by one core that has all queues. -/
theorem serve_as_one (stub : Stub) (rs : List Request) :
    replies stub.serve (fun _ => State.empty) rs =
      (replies (Moab.serve stub.pager) State.empty rs).map some :=
  (Parts.empty.serveAll rs).1

/-- No row is lost, stored twice or misplaced: after any run, a shard has those rows of the one
core whose key is within its bounds. -/
theorem serveAll_divides_rows (stub : Stub) (rs : List Request) (i : Fin stub.shardsPerApp)
    (a : Address) :
    (stub.serveAll (fun _ => State.empty) rs i).value a =
      if (stub.adapters i).lowerBound ≤ stub.byAccountAndQueue a.queue ∧
        stub.byAccountAndQueue a.queue ≤ (stub.adapters i).upperBound
      then (Moab.serveAll stub.pager State.empty rs).value a else none := by
  obtain ⟨size, hdiv⟩ := newAdapters_divided stub.made
  rw [(Parts.empty.serveAll rs).2.rows]
  exact if_congr (hdiv.find_iff _ i.isLt) rfl rfl

end Stub

end Serving

end Moab.Nonclustered
