-- The text of a birth table: how long it is, when it is read back, and what the layouts
-- that are no longer written are written as.
import Ottto.BirthReads

namespace ottto_service.claude_money_birth_store

open Words SortedVec Results List Option BirthStore StandardBase64
open durable_tail_codec (checked_add)
open durable_tail_codec.Durable (as_bytes as_bytes_ofList to_le_bytes_length)
open claude_copy_removals (take take_key take_len take_word times word_bytes len_bytes
  len_bytes_length word_bytes_length)

variable {out : Outside}

/-! ## The text -/

theorem symbol_is_one_byte : ∀ c ∈ UrlSafe.alphabet, (String.utf8EncodeChar c).length = 1 := by
  have hall : UrlSafe.alphabet.all (fun c => decide ((String.utf8EncodeChar c).length = 1)) =
      true := by
    decide
  intro c hc
  exact of_decide_eq_true (all_eq_true.mp hall c hc)

theorem one_byte_each {cs : List Char} (h : ∀ c ∈ cs, (String.utf8EncodeChar c).length = 1) :
    (cs.flatMap String.utf8EncodeChar).length = cs.length := by
  rw [length_flatMap, map_congr_left h, map_const', sum_replicate, smul_eq_mul,
    Nat.mul_one]

/-- Three bytes are four symbols of one byte each. -/
theorem encoded_length (bytes : Bytes) :
    (as_bytes (String.ofList (UrlSafe.encode bytes))).length = (bytes.length * 4 + 2) / 3 := by
  rw [as_bytes_ofList, one_byte_each (fun c hc => symbol_is_one_byte c
    (encode_mem c hc)), encode_length]

theorem one_byte_or_more (cs : List Char) : cs.length ≤ (cs.flatMap String.utf8EncodeChar).length := by
  induction cs with
  | nil => simp
  | cons c cs ih =>
    have hc : 0 < (String.utf8EncodeChar c).length := by
      rw [String.length_utf8EncodeChar]
      exact Char.utf8Size_pos c
    rw [flatMap_cons, length_append, length_cons]
    omega

theorem text_length (text : String) : text.toList.length ≤ (as_bytes text).length := by
  have hlength := one_byte_or_more text.toList
  rw [← as_bytes_ofList, String.ofList_toList] at hlength
  exact hlength

theorem decoded_length {cs : List Char} {bytes : Bytes} (h : UrlSafe.decode cs = some bytes) :
    bytes.length * 4 ≤ cs.length * 3 := by
  induction cs using UrlSafe.decode.induct generalizing bytes with
  | case1 =>
    cases h
    simp
  | case2 => cases h
  | case3 x y =>
    simp only [UrlSafe.decode, bind_eq_bind, bind_eq_some_iff] at h
    obtain ⟨x', -, y', -, h⟩ := h
    split at h
    · cases h
      simp
    · cases h
  | case4 x y z =>
    simp only [UrlSafe.decode, bind_eq_bind, bind_eq_some_iff] at h
    obtain ⟨x', -, y', -, z', -, h⟩ := h
    split at h
    · cases h
      simp
    · cases h
  | case5 x y z w rest ih =>
    simp only [UrlSafe.decode, bind_eq_bind, bind_eq_some_iff] at h
    obtain ⟨x', -, y', -, z', -, w', -, others, hothers, h⟩ := h
    cases h
    have := ih hothers
    simp only [length_cons]
    omega

/-! ## What is kept is valid -/

theorem sorted_map {α β γ : Type} [LT α] {f : α × β → α × γ} (hf : ∀ e, (f e).1 = e.1)
    {l : List (α × β)} (h : l.Pairwise (fun a b => a.1 < b.1)) :
    (l.map f).Pairwise (fun a b => a.1 < b.1) := by
  apply pairwise_map.mpr
  exact h.imp (fun hlt => by rw [hf, hf]; exact hlt)

theorem valid_session_saved {s : LocationKey × Session} (h : valid_session s.2 = true) :
    valid_session (saved_session s).2 = true := by
  unfold valid_session at h ⊢
  unfold saved_session
  simp only [Bool.and_eq_true, windows_ordered_iff, isEmpty_map, List.all_map,
    List.any_map] at h ⊢
  obtain ⟨⟨⟨⟨hcutoff, hpaths⟩, hsorted⟩, hobserved⟩, howner⟩ := h
  exact ⟨⟨⟨⟨hcutoff, hpaths⟩, sorted_map (f := saved_path) (fun _ => rfl) hsorted⟩, hobserved⟩, howner⟩

variable {store : BirthStore}

theorem valid_saved (h : store.valid = some store) :
    store.saved.valid = some store.saved := by
  unfold BirthStore.valid at h ⊢
  unfold BirthStore.saved
  rw [ite_eq_left_iff] at h ⊢
  intro hbad
  exfalso
  apply hbad
  have hgood := not_not.mp (mt h (by simp))
  simp only [Bool.and_eq_true, windows_ordered_iff, List.all_map] at hgood ⊢
  obtain ⟨⟨⟨hsorted, hmarks⟩, hmarked⟩, hsessions⟩ := hgood
  refine ⟨⟨⟨sorted_map (f := saved_session) (fun _ => rfl) hsorted, hmarks⟩, hmarked⟩, ?_⟩
  apply all_eq_true.mpr
  intro s hs
  exact valid_session_saved (all_eq_true.mp hsessions s hs)

/-! ## Within the limit -/

variable {text : String}

theorem serialize_eq_ok (h : store.serialize = .ok text) :
    ∃ bytes, store.put_bytes = .ok bytes ∧ text = String.ofList (UrlSafe.encode bytes) := by
  unfold BirthStore.serialize at h
  split at h
  · cases h
  · obtain ⟨bytes, hbytes, h⟩ := bind_eq_ok.mp h
    exact ⟨bytes, hbytes, (Except.ok.inj h).symm⟩

theorem decode_of_long (h : ENCODED_LIMIT < (as_bytes text).length) :
    decode out text = none := if_pos h

/-- A text that the reader takes gives the table, less its probes and the extents of unknown
objects. -/
theorem decode_serialize (hvalid : store.valid = some store)
    (h : store.serialize = .ok text) (hlength : (as_bytes text).length ≤ ENCODED_LIMIT) :
    decode out text = some store.saved := by
  obtain ⟨bytes, hbytes, rfl⟩ := serialize_eq_ok h
  have hshort : bytes.length < 2 ^ 32 := by
    rw [encoded_length] at hlength
    unfold ENCODED_LIMIT at hlength
    omega
  obtain ⟨version, input, htake, hlayout, hstore⟩ := @take_store_put out _ _ hbytes hshort
  unfold decode
  rw [if_neg (Nat.not_lt.mpr hlength), String.toList_ofList, UrlSafe.decode_encode]
  simp only [bind_eq_bind, bind_some, htake, hlayout, hstore, valid_saved hvalid]

end ottto_service.claude_money_birth_store
