import OctCommu.SerialPort.SendPath

/-! # What the value of `send` tells

`send` admits a payload as long as the cache, `append` keeps one byte of it free and
does not say when it stores nothing. An empty payload empties the cache.
-/
namespace OctCommu.SerialPort.Send
open Memory Util

/-- A payload that is not empty, at the end of the level-one cache. -/
def Stores (t : State) (pdata : List UInt8) : Prop :=
  pdata ≠ [] ∧ pdata <:+ t.send_l1_cache_.contents

structure Truthful (s : State) (pdata : List UInt8) : Prop where
  accepted : 0 < (send s pdata).1 → (send s pdata).1 = pdata.length ∧ Stores (send s pdata).2 pdata ∧
    (send s pdata).2.listen_to_write_ = true
  refused : ¬ Stores (send s pdata).2 pdata → (send s pdata).1 ≤ 0 ∧
    (send s pdata).2.send_l1_cache_ = s.send_l1_cache_ ∧
    (send s pdata).2.send_l2_cache_ = s.send_l2_cache_ ∧
    (send s pdata).2.send_swap_cache_ = s.send_swap_cache_ ∧
    (send s pdata).2.listen_to_write_ = s.listen_to_write_

/-- The cache has room for the payload and one byte more, or `send` sees that it is too long. -/
def Fits (s : State) (pdata : List UInt8) : Prop :=
  MAX_SEND_BUFFER_LEN < pdata.length ∨ (0 < pdata.length ∧ pdata.length < MAX_SEND_BUFFER_LEN) ∨
    (pdata.length = 0 ∧ s.send_l1_cache_.length = 0 ∧ s.send_l1_cache_.currentLen = 0 ∧
      s.listen_to_write_ = true)

instance (s : State) (pdata : List UInt8) : Decidable (Fits s pdata) :=
  inferInstanceAs (Decidable (_ ∨ _ ∨ _))

theorem reset_append_nil (c : SendCache) : c.reset.append [] = c.reset := by
  have hmem : memcpy c.data_ 0 [] = c.data_ := by
    funext i
    simp [memcpy]
  unfold FixedBuffer.append
  split
  · simp [FixedBuffer.reset, hmem]
  · rfl

theorem reset_eq_self {c : SendCache} (hlen : c.length = 0) (hcur : c.currentLen = 0) :
    c.reset = c := by
  obtain ⟨data_,cur_,current_len_⟩ := c
  simp only [FixedBuffer.length, FixedBuffer.currentLen] at hlen hcur
  subst hlen hcur
  rfl

variable {s : State} {pdata : List UInt8}

theorem truthful_too_long (h : MAX_SEND_BUFFER_LEN < pdata.length) : Truthful s pdata := by
  obtain ⟨hr,e,he⟩ := send_refused (s := s) (.inr (.inr h))
  constructor
  · exact fun hpos => absurd hpos (Int.not_lt.mpr hr)
  · intro _
    rw [he]
    exact ⟨hr,rfl,rfl,rfl,rfl⟩

theorem truthful_stored (hfd : s.sp_fd_ ≠ -1) (hsus : s.sp_suspend_ = false) (hpos : 0 < pdata.length)
    (hlt : pdata.length < MAX_SEND_BUFFER_LEN) : Truthful s pdata := by
  have hsend := send_accepting hfd hsus (Nat.le_of_lt hlt)
  have hstores : Stores (send s pdata).2 pdata := by
    rw [hsend]
    refine ⟨List.ne_nil_of_length_pos hpos,?_⟩
    rw [contents_reset_append, if_pos hlt]
  constructor
  · intro _
    exact ⟨by rw [hsend],hstores,by rw [hsend]⟩
  · exact fun h => absurd hstores h

/-- A payload as long as the cache is reported as sent and is not there. -/
theorem not_truthful_full (hfd : s.sp_fd_ ≠ -1) (hsus : s.sp_suspend_ = false)
    (hlen : pdata.length = MAX_SEND_BUFFER_LEN) : ¬ Truthful s pdata := by
  intro h
  have hsend := send_accepting hfd hsus (Nat.le_of_eq hlen)
  have hpos : 0 < (send s pdata).1 := by
    rw [hsend, hlen]
    exact Int.natCast_pos.mpr (by decide)
  obtain ⟨hne,hsuffix⟩ := (h.accepted hpos).2.1
  rw [hsend, contents_reset_append, if_neg (Nat.not_lt.mpr (Nat.le_of_eq hlen.symm))] at hsuffix
  exact hne (List.suffix_nil.mp hsuffix)

theorem truthful_empty_iff (hfd : s.sp_fd_ ≠ -1) (hsus : s.sp_suspend_ = false) :
    Truthful s [] ↔ s.send_l1_cache_.length = 0 ∧ s.send_l1_cache_.currentLen = 0 ∧
      s.listen_to_write_ = true := by
  have hnil : ([] : List UInt8).length ≤ MAX_SEND_BUFFER_LEN := Nat.zero_le _
  have hsend := send_accepting hfd hsus hnil
  rw [reset_append_nil] at hsend
  constructor
  · intro h
    obtain ⟨_,hl1,_,_,hlisten⟩ := h.refused fun hs => hs.1 rfl
    rw [hsend] at hl1 hlisten
    have hl1 : s.send_l1_cache_.reset = s.send_l1_cache_ := hl1
    rw [← hl1]
    exact ⟨rfl,rfl,hlisten.symm⟩
  · rintro ⟨hlen,hcur,hlisten⟩
    constructor
    · rw [hsend]
      exact fun hpos => absurd hpos (Int.lt_irrefl 0)
    · intro _
      rw [hsend]
      exact ⟨Int.le_refl 0,reset_eq_self hlen hcur,rfl,rfl,hlisten.symm⟩

/-- On an open port that is not suspended `send` tells the truth just when the payload fits. -/
theorem send_truthful_iff (hfd : s.sp_fd_ ≠ -1) (hsus : s.sp_suspend_ = false) (pdata : List UInt8) :
    Truthful s pdata ↔ Fits s pdata := by
  rcases Nat.lt_trichotomy pdata.length MAX_SEND_BUFFER_LEN with hlt | hlen | hlong
  · rcases Nat.eq_zero_or_pos pdata.length with hzero | hpos
    · obtain rfl := List.length_eq_zero_iff.mp hzero
      rw [truthful_empty_iff hfd hsus]
      simp [Fits]
    · exact iff_of_true (truthful_stored hfd hsus hpos hlt) (.inr (.inl ⟨hpos,hlt⟩))
  · refine iff_of_false (not_truthful_full hfd hsus hlen) ?_
    have hmax : 0 < MAX_SEND_BUFFER_LEN := by decide
    rintro (h | h | h)
    · omega
    · omega
    · omega
  · exact iff_of_true (truthful_too_long hlong) (.inl hlong)

theorem send_truthful_two : Truthful (opened 3 false) [1,2] :=
  (send_truthful_iff (by decide) rfl [1,2]).mpr (by decide)

/-- 10240 bytes: `send` returns 10240 and stores none. -/
theorem full_payload_untold : (send (opened 3 false) (List.replicate 10240 0)).1 = 10240 ∧
    ¬ Truthful (opened 3 false) (List.replicate 10240 0) := by
  have hlen : (List.replicate 10240 (0 : UInt8)).length = MAX_SEND_BUFFER_LEN := List.length_replicate
  refine ⟨?_,not_truthful_full (by decide) rfl hlen⟩
  rw [send_accepting (by decide) rfl (Nat.le_of_eq hlen), hlen]
  rfl

end OctCommu.SerialPort.Send
