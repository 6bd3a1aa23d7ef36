import Moab.Tasks.Keys

namespace Moab

variable {i j : IndexItem} {k k' : ThreadKey}

/-- utils.BytesToUint64, and the conversion of its result to int64. -/
def bytesToUint64 (b : Bytes) : Nat := ofBigEndian b

def bytesToTime (b : Bytes) : Time := (UInt64.ofNat (bytesToUint64 b)).toInt64

def extractTaskIdFromIndexItem (item : Bytes) : Nat :=
  bytesToUint64 (item.drop (item.length - 8))

def extractTimeFromIndexItem (item : Bytes) : Time :=
  bytesToTime ((item.drop (item.length - 16)).take 8)

/-- The entry that ListDue reads off from an item of the expiration index. -/
def expiredTaskRef (item : Bytes) : ExpirationItem where
  expiresAt := bytesToTime (item.take 8)
  taskId := ⟨bytesToUint64 ((item.drop 8).take 8), bytesToUint64 ((item.drop 16).take 8),
    bytesToUint64 ((item.drop 24).take 8)⟩

theorem Time.rank_lt (t : Time) : t.rank < 256 ^ 8 := t.toUInt64.toNat_lt

theorem bytesToTime_rank (t : Time) : bytesToTime (uint64 t.rank) = t := by
  unfold bytesToTime bytesToUint64 uint64
  rw [ofBigEndian_bigEndian t.rank_lt, Time.rank, UInt64.ofNat_toNat]
  rfl

theorem bytesToUint64_uint64 {n : Nat} (h : n < 256 ^ 8) : bytesToUint64 (uint64 n) = n :=
  ofBigEndian_bigEndian h

theorem length_uint64 (n : Nat) : (uint64 n).length = 8 := length_bigEndian 8 n

/-- The stored bytes of two items compare as the model does. -/
theorem IndexItem.bytes_lt_iff (hi : i.taskId < 256 ^ 8) (hj : j.taskId < 256 ^ 8) :
    i.bytes < j.bytes ↔ i < j := by
  have hlex : i < j ↔ i.time.rank < j.time.rank ∨ i.time.rank = j.time.rank ∧ i.taskId < j.taskId :=
    Prod.Lex.lt_iff
  rw [hlex, IndexItem.bytes, IndexItem.bytes]
  simp only [uint64]
  rw [bigEndian_append_lt_iff i.time.rank_lt j.time.rank_lt, bigEndian_lt_iff hi hj]

/-- Task ids are ordered by account, queue and number. -/
theorem TaskId.lt_iff (a b : TaskId) : a < b ↔ a.accountId < b.accountId ∨
    a.accountId = b.accountId ∧ (a.queueId < b.queueId ∨ a.queueId = b.queueId ∧
      a.taskId < b.taskId) := by
  change a.rank < b.rank ↔ _
  rw [TaskId.rank, TaskId.rank, Prod.Lex.lt_iff]
  refine or_congr_right (and_congr_right (fun _ => ?_))
  exact Prod.Lex.lt_iff

/-- Every part of the id is uint64. -/
structure TaskId.IsUInt64 (id : TaskId) : Prop where
  queue : id.queue.IsUInt64
  taskId : id.taskId < 256 ^ 8

theorem ExpirationItem.bytes_lt_iff {i j : ExpirationItem} (hi : i.taskId.IsUInt64)
    (hj : j.taskId.IsUInt64) : i.bytes < j.bytes ↔ i < j := by
  have hlex : i < j ↔ i.expiresAt.rank < j.expiresAt.rank ∨ i.expiresAt.rank = j.expiresAt.rank ∧
      i.taskId.rank < j.taskId.rank := Prod.Lex.lt_iff
  have hids := TaskId.lt_iff i.taskId j.taskId
  change i.taskId.rank < j.taskId.rank ↔ _ at hids
  rw [hlex, hids, ExpirationItem.bytes, ExpirationItem.bytes, QueueId.tablePK, QueueId.tablePK]
  simp only [List.append_assoc, uint64]
  rw [bigEndian_append_lt_iff i.expiresAt.rank_lt j.expiresAt.rank_lt,
    bigEndian_append_lt_iff hi.queue.accountId hj.queue.accountId,
    bigEndian_append_lt_iff hi.queue.queueId hj.queue.queueId, bigEndian_lt_iff hi.taskId hj.taskId]
  rfl

theorem ExpirationItem.lt_iff {i j : ExpirationItem} (hi : 0 ≤ i.expiresAt) (hj : 0 ≤ j.expiresAt) :
    i < j ↔ i.expiresAt < j.expiresAt ∨ i.expiresAt = j.expiresAt ∧ i.taskId < j.taskId := by
  have hlex : i < j ↔ i.expiresAt.rank < j.expiresAt.rank ∨ i.expiresAt.rank = j.expiresAt.rank ∧
      i.taskId.rank < j.taskId.rank := Prod.Lex.lt_iff
  rw [hlex, Time.rank_lt_rank hi hj, Time.rank_injective.eq_iff]
  rfl

section RoundTrips

theorem extractTimeFromIndexItem_bytes (i : IndexItem) :
    extractTimeFromIndexItem i.bytes = i.time := by
  have hlength : i.bytes.length = 16 := by
    rw [IndexItem.bytes, List.length_append, length_uint64, length_uint64]
  unfold extractTimeFromIndexItem
  rw [hlength, List.drop_zero, IndexItem.bytes, List.take_left' (length_uint64 _), bytesToTime_rank]

theorem extractTaskIdFromIndexItem_bytes (hi : i.taskId < 256 ^ 8) :
    extractTaskIdFromIndexItem i.bytes = i.taskId := by
  have hlength : i.bytes.length = 16 := by
    rw [IndexItem.bytes, List.length_append, length_uint64, length_uint64]
  unfold extractTaskIdFromIndexItem
  rw [hlength, IndexItem.bytes, List.drop_left' (length_uint64 _), bytesToUint64_uint64 hi]

theorem expiredTaskRef_bytes {i : ExpirationItem} (hi : i.taskId.IsUInt64) :
    expiredTaskRef i.bytes = i := by
  have hdrop : ∀ (a : Nat) (rest : Bytes) (n : Nat),
      (uint64 a ++ rest).drop (8 + n) = rest.drop n := by
    intro a rest n
    rw [← List.drop_drop, List.drop_left' (length_uint64 a)]
  have htake : ∀ (a : Nat) (rest : Bytes), (uint64 a ++ rest).take 8 = uint64 a := fun a rest =>
    List.take_left' (length_uint64 a)
  have hlast : (uint64 i.taskId.taskId).take 8 = uint64 i.taskId.taskId :=
    List.take_of_length_le (Nat.le_of_eq (length_uint64 _))
  unfold expiredTaskRef
  rw [ExpirationItem.bytes, QueueId.tablePK, List.append_assoc, htake, bytesToTime_rank,
    hdrop _ _ 0, List.drop_zero, htake, hdrop _ _ 8, hdrop _ _ 0, List.drop_zero, htake,
    hdrop _ _ 16, hdrop _ _ 8, hdrop _ _ 0, List.drop_zero, hlast,
    bytesToUint64_uint64 hi.queue.accountId, bytesToUint64_uint64 hi.queue.queueId,
    bytesToUint64_uint64 hi.taskId]
  rfl

end RoundTrips

/-- The ids are uint64, and the length of the thread id is a uint32. -/
structure ThreadKey.Encodable (k : ThreadKey) : Prop where
  queue : k.queue.IsUInt64
  length : k.threadId.length < 256 ^ 4

/-- A thread is read back from the front of the keys of its members. -/
theorem threadIndexPK_append_inj {a b : Bytes} (hk : k.Encodable) (hk' : k'.Encodable)
    (h : k.threadIndexPK ++ a = k'.threadIndexPK ++ b) : k = k' := by
  simp only [ThreadKey.threadIndexPK, List.append_assoc] at h
  have hqueue := tablePK_append_inj hk.queue hk'.queue h
  rw [hqueue] at h
  obtain ⟨hlength, hthread⟩ := bigEndian_append_inj hk.length hk'.length (List.append_cancel_left h)
  obtain ⟨hid, _⟩ := List.append_inj hthread hlength
  cases k
  cases k'
  subst hqueue hid
  rfl

theorem threadIndexPK_prefix_iff {item : Bytes} (hk : k.Encodable) (hk' : k'.Encodable) :
    k'.threadIndexPK <+: k.threadIndexPK ++ item ↔ k' = k := by
  constructor
  · intro h
    obtain ⟨rest, hrest⟩ := h
    exact threadIndexPK_append_inj hk' hk hrest
  · intro h
    rw [h]
    exact List.prefix_append _ _

/-- The bytes that the store compares and scans by say what they are meant to: their
order is that of the times and ids from the epoch on, what was written is read back, and
the scan of one thread meets the items of no other. -/
theorem index_keys_faithful :
    (∀ i j : IndexItem, 0 ≤ i.time → 0 ≤ j.time → i.taskId < 2 ^ 64 → j.taskId < 2 ^ 64 →
      (i.bytes < j.bytes ↔ i.time < j.time ∨ i.time = j.time ∧ i.taskId < j.taskId)) ∧
    (∀ i j : ExpirationItem, 0 ≤ i.expiresAt → 0 ≤ j.expiresAt → i.taskId.IsUInt64 →
      j.taskId.IsUInt64 →
      (i.bytes < j.bytes ↔ i.expiresAt < j.expiresAt ∨ i.expiresAt = j.expiresAt ∧
        (i.taskId.accountId < j.taskId.accountId ∨ i.taskId.accountId = j.taskId.accountId ∧
          (i.taskId.queueId < j.taskId.queueId ∨ i.taskId.queueId = j.taskId.queueId ∧
            i.taskId.taskId < j.taskId.taskId)))) ∧
    (∀ i : IndexItem, i.taskId < 2 ^ 64 → extractTimeFromIndexItem i.bytes = i.time ∧
      extractTaskIdFromIndexItem i.bytes = i.taskId) ∧
    (∀ i : ExpirationItem, i.taskId.IsUInt64 → expiredTaskRef i.bytes = i) ∧
    ∀ (k k' : ThreadKey) (i : IndexItem), k.Encodable → k'.Encodable →
      (k'.threadIndexPK <+: k.threadIndexPK ++ i.bytes ↔ k' = k) := by
  refine ⟨?_, ?_, ?_, fun i hi => expiredTaskRef_bytes hi, fun k k' i hk hk' =>
    threadIndexPK_prefix_iff hk hk'⟩
  · intro i j hi hj hid hjd
    rw [IndexItem.bytes_lt_iff hid hjd, IndexItem.lt_iff hi hj]
  · intro i j hi hj hid hjd
    rw [ExpirationItem.bytes_lt_iff hid hjd, ExpirationItem.lt_iff hi hj, TaskId.lt_iff]
  · intro i hi
    exact ⟨extractTimeFromIndexItem_bytes i, extractTaskIdFromIndexItem_bytes hi⟩

/-- Of two threads of one queue, the one id begins the other. -/
theorem index_keys_faithful_nested :
    ¬(⟨⟨1, 1⟩, [7]⟩ : ThreadKey).threadIndexPK <+:
      (⟨⟨1, 1⟩, [7, 0]⟩ : ThreadKey).threadIndexPK ++ (⟨5, 3⟩ : IndexItem).bytes ∧
    (⟨5, 3⟩ : IndexItem).bytes < (⟨5, 4⟩ : IndexItem).bytes ∧
    extractTimeFromIndexItem (⟨5, 3⟩ : IndexItem).bytes = 5 := by
  obtain ⟨horder, _, hread, _, hbegins⟩ := index_keys_faithful
  refine ⟨?_, ?_, (hread ⟨5, 3⟩ (by decide)).1⟩
  · rw [hbegins _ _ _ ⟨by decide, by decide⟩ ⟨by decide, by decide⟩]
    decide
  · rw [horder _ _ (by decide) (by decide) (by decide) (by decide)]
    exact Or.inr ⟨rfl, by decide⟩

end Moab
