-- Canonical JSON as an identity of the value: the bytes are read back as an
-- equal value, so two values have the same bytes only when they are equal.
import Ottto.CanonicalJson

namespace ottto_service.canonical_json

open serde_json serde_json.Reader List Option Number

/-! ## Strings -/

theorem hex4_lower_hex_04 (rest : List Char) :
    ∀ n < 0x20, hex4 (lower_hex_04 n ++ rest) = some (n, rest) := by
  intro n hn
  interval_cases n <;> rfl

/-- A character is read back from what stands for it. -/
theorem readString_escape_char (c : Char) (rest : List Char) (fuel : Nat) :
    readString (fuel + 1) (escape_char c ++ rest) =
      (readString fuel rest).map (fun found => (c :: found.1, found.2)) := by
  have hescape : ∀ (d : Char) (text : List Char), readEscape text = some (d, rest) →
      readString (fuel + 1) ('\\' :: text) =
        (readString fuel rest).map (fun found => (d :: found.1, found.2)) := by
    intro d text h
    rw [readString, if_neg (by decide), if_pos rfl, h]
    simp only [bind_eq_bind, bind_some]
    cases readString fuel rest <;> rfl
  unfold escape_char
  by_cases hquote : c = '"'
  · subst hquote
    exact hescape _ _ rfl
  by_cases hslash : c = '\\'
  · subst hslash
    exact hescape _ _ rfl
  by_cases hb : c = '\x08'
  · subst hb
    exact hescape _ _ rfl
  by_cases ht : c = '\t'
  · subst ht
    exact hescape _ _ rfl
  by_cases hn : c = '\n'
  · subst hn
    exact hescape _ _ rfl
  by_cases hf : c = '\x0c'
  · subst hf
    exact hescape _ _ rfl
  by_cases hr : c = '\r'
  · subst hr
    exact hescape _ _ rfl
  simp only [if_neg hquote, if_neg hslash, if_neg hb, if_neg ht, if_neg hn, if_neg hf, if_neg hr]
  by_cases hcontrol : c.toNat < 0x20
  · rw [if_pos hcontrol]
    apply hescape
    show readUnicode (lower_hex_04 c.toNat ++ rest) = _
    unfold readUnicode
    rw [hex4_lower_hex_04 rest _ hcontrol]
    simp only [bind_eq_bind, bind_some]
    rw [if_neg (by omega), if_neg (by omega), Char.ofNat_toNat]
  · rw [if_neg hcontrol, singleton_append, readString, if_neg hquote, if_neg hslash,
      if_neg hcontrol]
    cases readString fuel rest <;> rfl

theorem escape_char_length (c : Char) : 0 < (escape_char c).length := by
  unfold escape_char
  repeat (first | split | simp)

theorem readString_escaped (cs rest : List Char) (fuel : Nat) (h : cs.length < fuel) :
    readString fuel (cs.flatMap escape_char ++ '"' :: rest) = some (cs, rest) := by
  induction cs generalizing fuel with
  | nil =>
    obtain ⟨fuel, rfl⟩ : ∃ n, fuel = n + 1 := ⟨fuel - 1, by simp at h; omega⟩
    rfl
  | cons c cs ih =>
    obtain ⟨fuel, rfl⟩ : ∃ n, fuel = n + 1 := ⟨fuel - 1, by simp at h; omega⟩
    rw [flatMap_cons, append_assoc, readString_escape_char, ih fuel (by simp at h; omega)]
    rfl

/-- A quoted text is read back, with the fuel the reader takes. -/
theorem readString_quoted (text : String) (rest : List Char) :
    readString ((text.toList.flatMap escape_char ++ '"' :: rest).length + 1)
      (text.toList.flatMap escape_char ++ '"' :: rest) = some (text.toList, rest) := by
  apply readString_escaped
  have hlength : ∀ cs : List Char, cs.length ≤ (cs.flatMap escape_char).length := by
    intro cs
    induction cs with
    | nil => simp
    | cons c cs ih =>
      rw [flatMap_cons, length_append, length_cons]
      have := escape_char_length c
      omega
  have := hlength text.toList
  rw [length_append]
  omega

/-! ## Numbers -/

/-- What may stand after a value: the end, a comma or a closing bracket. -/
def Ends (rest : List Char) : Prop :=
  ∀ c ∈ rest.head?, c = ',' ∨ c = ']' ∨ c = '\x7d'

variable {rest : List Char}

theorem readDigits_toDigits (n : Nat) (h : Ends rest) :
    readDigits (Nat.toDigits 10 n ++ rest) = some (Nat.toDigits 10 n, rest) := by
  have hdigits : ∀ c ∈ Nat.toDigits 10 n, c.isDigit = true :=
    fun c hc => Nat.isDigit_of_mem_toDigits (by decide) (by decide) hc
  have hrest : rest.takeWhile Char.isDigit = [] ∧ rest.dropWhile Char.isDigit = rest := by
    cases rest with
    | nil => exact ⟨rfl, rfl⟩
    | cons c rest =>
      have hc : c.isDigit = false := by
        rcases h c rfl with rfl | rfl | rfl <;> decide
      simp [hc]
  unfold readDigits
  rw [span_eq_takeWhile_dropWhile, takeWhile_append_of_pos hdigits,
    dropWhile_append_of_pos hdigits, hrest.1, hrest.2, append_nil]
  cases hn : Nat.toDigits 10 n with
  | nil => exact absurd hn Nat.toDigits_ne_nil
  | cons c cs => rfl

/-- A number is written without a leading zero. -/
theorem toDigits_head (n : Nat) (h : (Nat.toDigits 10 n).length > 1) :
    (Nat.toDigits 10 n).head? ≠ some '0' := by
  induction n using Nat.strong_induction_on with
  | _ n ih =>
    by_cases hsmall : n < 10
    · rw [Nat.toDigits_of_lt_base hsmall] at h
      simp at h
    · rw [Nat.toDigits_of_base_le (by decide) (by omega)]
      rw [head?_append_of_ne_nil _ Nat.toDigits_ne_nil]
      by_cases hone : (Nat.toDigits 10 (n / 10)).length > 1
      · exact ih (n / 10) (by omega) hone
      · have hlt : n / 10 < 10 := by
          by_contra hge
          rw [Nat.toDigits_of_base_le (by decide) (by omega), length_append] at hone
          simp at hone
        have hpos : 0 < n / 10 := by omega
        generalize n / 10 = d at hlt hpos
        interval_cases d <;> decide

theorem readInteger_toDigits (n : Nat) (h : Ends rest) :
    readInteger (Nat.toDigits 10 n ++ rest) = some (Nat.toDigits 10 n, rest) := by
  unfold readInteger
  rw [readDigits_toDigits n h]
  simp only [bind_eq_bind, bind_some]
  rw [if_neg]
  rintro ⟨hhead, hlength⟩
  exact toDigits_head n hlength hhead

theorem readFraction_ends (h : Ends rest) :
    readFraction rest = some ([], rest) := by
  cases rest with
  | nil => rfl
  | cons c rest => rcases h c rfl with rfl | rfl | rfl <;> rfl

theorem readExponent_ends (h : Ends rest) :
    readExponent rest = some ([], rest) := by
  cases rest with
  | nil => rfl
  | cons c rest => rcases h c rfl with rfl | rfl | rfl <;> rfl

theorem number_unsigned (float : List Char → Option UInt64) {m : Nat} (h : m < 2 ^ 64) :
    number float false (Nat.toDigits 10 m) [] = some (.PosInt (UInt64.ofNat m)) := by
  simp only [number, Nat.ofDigitChars_ten_toDigits, ne_eq, not_true_eq_false, if_false,
    Bool.false_eq_true]
  exact if_pos h

theorem number_negative (float : List Char → Option UInt64) {m : Nat} (h : m + 1 ≤ 2 ^ 63) :
    number float true (Nat.toDigits 10 (m + 1)) [] =
      some (.NegInt (Int64.ofInt (.negSucc m))) := by
  simp only [number, Nat.ofDigitChars_ten_toDigits, ne_eq, not_true_eq_false, if_false, if_true]
  exact if_pos ⟨Nat.succ_pos m, h⟩

theorem readNumber_integerText (float : List Char → Option UInt64) {n : Number}
    (h : IsInteger n) (hends : Ends rest) :
    readNumber float (integerText (normalNumber n) ++ rest) =
      some (.number (normalNumber n), rest) := by
  cases hinteger : n.integer with
  | none =>
    cases n with
    | PosInt n => cases hinteger
    | NegInt n => cases hinteger
    | Float bits => simp [IsInteger, as_u64, as_i64] at h
  | some i =>
    have hbounds : -2 ^ 63 ≤ i ∧ i < 2 ^ 64 := by
      cases n with
      | PosInt n =>
        obtain rfl : (n.toNat : Int) = i := Option.some.inj hinteger
        have := n.toNat_lt
        omega
      | NegInt n =>
        obtain rfl : n.toInt = i := Option.some.inj hinteger
        have := n.toInt_lt
        have := n.le_toInt
        omega
      | Float bits => cases hinteger
    rw [integerText_normalNumber]
    unfold integerText normalNumber
    rw [hinteger]
    cases i with
    | ofNat m =>
      have htext : (toString (Int.ofNat m)).toList = Nat.toDigits 10 m := Nat.toList_repr
      have hminus : ∀ t, Nat.toDigits 10 m ++ rest ≠ '-' :: t := by
        intro t heq
        have hhead := congrArg List.head? heq
        rw [head?_append_of_ne_nil _ Nat.toDigits_ne_nil] at hhead
        have hdigit := Nat.isDigit_of_mem_toDigits (b := 10) (by decide) (by decide)
          (mem_of_mem_head? hhead)
        cases hdigit
      simp only [htext]
      unfold readNumber
      split
      rename_i negative text hsplit
      have hplain : (negative, text) = (false, Nat.toDigits 10 m ++ rest) := by
        rw [← hsplit]
        split
        · rename_i heq
          exact absurd heq (hminus _)
        · rfl
      cases hplain
      rw [readInteger_toDigits m hends]
      simp only [bind_eq_bind, bind_some, readFraction_ends hends,
        readExponent_ends hends]
      have hlt : m < 2 ^ 64 := by
        have := hbounds.2
        simp only [Int.ofNat_eq_natCast] at this
        omega
      rw [append_nil, number_unsigned float hlt]
      rfl
    | negSucc m =>
      have htext : (toString (Int.negSucc m)).toList = '-' :: Nat.toDigits 10 (m + 1) := by
        show ("-" ++ (m + 1).repr).toList = _
        rw [String.toList_append, Nat.toList_repr]
        rfl
      simp only [htext]
      simp only [cons_append, readNumber, readInteger_toDigits (m + 1) hends,
        bind_eq_bind, bind_some, readFraction_ends hends, readExponent_ends hends]
      have hle : m + 1 ≤ 2 ^ 63 := by
        omega
      rw [append_nil, number_negative float hle]
      rfl

/-! ## Values -/

/-- What a number starts with. -/
def isNumberStart (c : Char) : Bool := c.isDigit || c == '-'

theorem integerText_starts {n : Number} (h : IsInteger n) :
    ∃ c t, integerText n = c :: t ∧ isNumberStart c = true := by
  unfold integerText
  cases hinteger : n.integer with
  | none =>
    cases n with
    | PosInt n => cases hinteger
    | NegInt n => cases hinteger
    | Float bits => simp [IsInteger, as_u64, as_i64] at h
  | some i =>
    cases i with
    | ofNat m =>
      show ∃ c t, m.repr.toList = c :: t ∧ _
      rw [Nat.toList_repr]
      cases hdigits : Nat.toDigits 10 m with
      | nil => exact absurd hdigits Nat.toDigits_ne_nil
      | cons c t =>
        have hc : c.isDigit = true := by
          apply Nat.isDigit_of_mem_toDigits (b := 10) (n := m) (by decide) (by decide)
          rw [hdigits]
          exact mem_cons_self
        exact ⟨c, t, rfl, by simp [isNumberStart, hc]⟩
    | negSucc m =>
      refine ⟨'-', (m + 1).repr.toList, ?_, by decide⟩
      show ("-" ++ (m + 1).repr).toList = _
      rw [String.toList_append]
      rfl

variable {c : Char}

theorem ne_of_isNumberStart {d : Char} (h : isNumberStart c = true)
    (hd : isNumberStart d = false) : c ≠ d := by
  rintro rfl
  rw [h] at hd
  cases hd

/-- What a value starts with. -/
def isStart (c : Char) : Bool :=
  isNumberStart c || c == 'n' || c == 't' || c == 'f' || c == '"' || c == '[' || c == '\x7b'

variable {v : Value}

theorem plain_starts (h : IntegersOnly v) :
    ∃ c t, plain (normal v) = c :: t ∧ isStart c = true := by
  cases v with
  | null => exact ⟨'n', "ull".toList, by simp [normal, plain], by decide⟩
  | bool b =>
    cases b with
    | true => exact ⟨'t', "rue".toList, by simp [normal, plain], by decide⟩
    | false => exact ⟨'f', "alse".toList, by simp [normal, plain], by decide⟩
  | number n =>
    rw [normal, plain, integerText_normalNumber]
    obtain ⟨c, t, htext, hstart⟩ := integerText_starts ((integersOnly_number n).mp h)
    exact ⟨c, t, htext, by simp [isStart, hstart]⟩
  | string text => exact ⟨'"', _, rfl, by decide⟩
  | array items =>
    exact ⟨'[', _, rfl, by decide⟩
  | object members =>
    exact ⟨'\x7b', _, rfl, by decide⟩

theorem not_space_of_isStart (h : isStart c = true) :
    isSpace c = false ∧ c ≠ ']' ∧ c ≠ '\x7d' := by
  simp only [isStart, Bool.or_eq_true, beq_iff_eq] at h
  rcases h with (((((hnumber | rfl) | rfl) | rfl) | rfl) | rfl) | rfl
  · have hne : ∀ d, isNumberStart d = false → c ≠ d := fun d => ne_of_isNumberStart hnumber
    refine ⟨?_, hne _ (by decide), hne _ (by decide)⟩
    simp [isSpace, hne ' ' (by decide), hne '\t' (by decide), hne '\n' (by decide),
      hne '\r' (by decide)]
  all_goals decide

theorem skip_cons (h : isSpace c = false) (t : List Char) : skip (c :: t) = c :: t := by
  simp [skip, h]

theorem skip_plain (h : IntegersOnly v) (rest : List Char) :
    skip (plain (normal v) ++ rest) = plain (normal v) ++ rest := by
  obtain ⟨c, t, htext, hstart⟩ := plain_starts h
  rw [htext]
  exact skip_cons (not_space_of_isStart hstart).1 _

theorem ends_cons (h : c = ',' ∨ c = ']' ∨ c = '\x7d') (t : List Char) :
    Ends (c :: t) := by
  rintro d hd
  rwa [← Option.some.inj hd]

theorem joined_cons_cons (text other : List Char) (texts : List (List Char)) :
    joined (text :: other :: texts) = text ++ ',' :: joined (other :: texts) := by
  simp [joined]

/-- The text of a value is read back as the value it was written from. -/
def ReadBack (float : List Char → Option UInt64) (v : Value) : Prop :=
  ∀ fuel rest, (plain (normal v)).length < fuel → Ends rest →
    readValue float fuel (plain (normal v) ++ rest) = some (normal v, rest)

theorem readItems_joined {float : List Char → Option UInt64} (items : List Value) (hne : items ≠ [])
    (h : ∀ v ∈ items, IntegersOnly v ∧ ReadBack float v) (fuel : Nat) (rest : List Char)
    (hfuel : (joined (plainItems (items.map normal))).length + 1 < fuel) :
    readItems float fuel (joined (plainItems (items.map normal)) ++ ']' :: rest) =
      some (items.map normal, rest) := by
  induction items generalizing fuel with
  | nil => exact absurd rfl hne
  | cons item items ih =>
    obtain ⟨hinteger, hread⟩ := h item mem_cons_self
    obtain ⟨fuel, rfl⟩ : ∃ n, fuel = n + 1 := ⟨fuel - 1, by omega⟩
    cases items with
    | nil =>
      simp only [map_cons, map_nil, plainItems, joined, flatMap_nil,
        append_nil] at hfuel ⊢
      rw [readItems, skip_plain hinteger, hread fuel _ (by omega) (ends_cons (by decide) _)]
      rfl
    | cons other items =>
      simp only [map_cons, plainItems, joined_cons_cons, length_append,
        length_cons, append_assoc, cons_append] at hfuel ih ⊢
      have hrest := ih (by simp) (fun v hv => h v (mem_cons_of_mem _ hv)) fuel (by omega)
      rw [readItems, skip_plain hinteger, hread fuel _ (by omega) (ends_cons (by decide) _)]
      simp only [bind_eq_bind, bind_some]
      rw [skip_cons (by decide)]
      simp only [hrest, bind_some]

theorem readMembers_joined {float : List Char → Option UInt64} (members : List (String × Value))
    (hne : members ≠ []) (h : ∀ m ∈ members, IntegersOnly m.2 ∧ ReadBack float m.2) (fuel : Nat)
    (rest : List Char)
    (hfuel : (joined (plainMembers (members.map (Prod.map id normal)))).length + 1 < fuel) :
    readMembers float fuel
        (joined (plainMembers (members.map (Prod.map id normal))) ++ '\x7d' :: rest) =
      some (members.map (Prod.map id normal), rest) := by
  induction members generalizing fuel with
  | nil => exact absurd rfl hne
  | cons m members ih =>
    obtain ⟨key, value⟩ := m
    obtain ⟨hinteger, hread⟩ : IntegersOnly value ∧ ReadBack float value :=
      h (key, value) mem_cons_self
    obtain ⟨fuel, rfl⟩ : ∃ n, fuel = n + 1 := ⟨fuel - 1, by omega⟩
    cases members with
    | nil =>
      simp only [map_cons, map_nil, Prod.map, id, plainMembers, joined, quoted,
        flatMap_nil, append_nil, length_append, length_cons, cons_append,
        append_assoc, nil_append] at hfuel ⊢
      rw [readMembers, skip_cons (by decide)]
      simp only [readString_quoted, bind_eq_bind, bind_some]
      rw [skip_cons (by decide)]
      simp only
      rw [skip_plain hinteger, hread fuel _ (by omega) (ends_cons (by decide) _)]
      simp only [bind_some]
      rw [skip_cons (by decide)]
      simp only [String.ofList_toList]
    | cons other members =>
      simp only [map_cons, Prod.map, id, plainMembers, joined_cons_cons, quoted,
        length_append, length_cons, append_assoc, cons_append,
        nil_append] at hfuel ih ⊢
      have hrest := ih (by simp) (fun m hm => h m (mem_cons_of_mem _ hm)) fuel (by omega)
      rw [readMembers, skip_cons (by decide)]
      simp only [readString_quoted, bind_eq_bind, bind_some]
      rw [skip_cons (by decide)]
      simp only
      rw [skip_plain hinteger, hread fuel _ (by omega) (ends_cons (by decide) _)]
      simp only [bind_some]
      rw [skip_cons (by decide)]
      simp only [hrest, bind_some, String.ofList_toList]

/-- Members with different keys are collected as they are read. -/
theorem foldl_insertMember {members : List (String × Value)}
    (h : (members.map Prod.fst).Nodup) : members.foldl insertMember [] = members := by
  suffices hfold : ∀ members found : List (String × Value),
      ((found ++ members).map Prod.fst).Nodup →
      members.foldl insertMember found = found ++ members by
    simpa using hfold members [] (by simpa using h)
  intro members
  induction members with
  | nil => simp
  | cons m members ih =>
    intro found h
    have hnew : ∀ other ∈ found, other.1 ≠ m.1 := by
      intro other hother heq
      rw [map_append, map_cons] at h
      exact (nodup_append.mp h).2.2 other.1 (mem_map_of_mem hother) m.1
        mem_cons_self heq
    have hkeep : found.filter (fun other => other.1 ≠ m.1) = found := by
      apply filter_eq_self.mpr
      intro other hother
      exact decide_eq_true (hnew other hother)
    have hstep : insertMember found m = found ++ [m] := by
      unfold insertMember
      rw [hkeep]
    rw [foldl_cons, hstep, ih (found ++ [m]) (by simpa using h), append_assoc]
    rfl

/-- Induction on the value: every part is read back, so the whole is. -/
theorem readValue_plain (float : List Char → Option UInt64) (v : Value) :
    v.KeysOnce → IntegersOnly v → ReadBack float v := by
  induction v using Value.induct with
  | null =>
    intro _ _ fuel rest hfuel _
    obtain ⟨fuel, rfl⟩ : ∃ n, fuel = n + 1 := ⟨fuel - 1, by omega⟩
    rfl
  | bool b =>
    intro _ _ fuel rest hfuel _
    obtain ⟨fuel, rfl⟩ : ∃ n, fuel = n + 1 := ⟨fuel - 1, by omega⟩
    cases b <;> rfl
  | number n =>
    intro _ hinteger fuel rest hfuel hends
    obtain ⟨fuel, rfl⟩ : ∃ n, fuel = n + 1 := ⟨fuel - 1, by omega⟩
    rw [integersOnly_number] at hinteger
    obtain ⟨c, t, htext, hstart⟩ := integerText_starts hinteger
    have hread := readNumber_integerText float hinteger hends
    have hne : ∀ d, isNumberStart d = false → c ≠ d := fun d => ne_of_isNumberStart hstart
    rw [integerText_normalNumber, htext, cons_append] at hread
    rw [normal, plain, integerText_normalNumber, htext, cons_append, readValue,
      if_neg (hne _ (by decide)), if_neg (hne _ (by decide)), if_neg (hne _ (by decide)),
      if_neg (hne _ (by decide)), if_neg (hne _ (by decide)), if_neg (hne _ (by decide)), hread]
  | string text =>
    intro _ _ fuel rest hfuel _
    obtain ⟨fuel, rfl⟩ : ∃ n, fuel = n + 1 := ⟨fuel - 1, by omega⟩
    have htext : plain (normal (.string text)) ++ rest =
        '"' :: (text.toList.flatMap escape_char ++ '"' :: rest) := by
      simp [normal, plain, quoted]
    rw [htext, readValue, if_neg (by decide), if_neg (by decide), if_neg (by decide), if_pos rfl,
      readString_quoted]
    simp only [bind_eq_bind, bind_some, String.ofList_toList]
    rfl
  | array items ih =>
    intro honce hinteger fuel rest hfuel hends
    obtain ⟨fuel, rfl⟩ : ∃ n, fuel = n + 1 := ⟨fuel - 1, by omega⟩
    cases honce with
    | array _ honce =>
      rw [integersOnly_array] at hinteger
      have heach : ∀ v ∈ items, IntegersOnly v ∧ ReadBack float v :=
        fun v hv => ⟨hinteger v hv, ih v hv (honce v hv) (hinteger v hv)⟩
      rw [normal_array, plain] at hfuel ⊢
      simp only [cons_append, append_assoc, nil_append, length_cons,
        length_append, length_nil] at hfuel ⊢
      rw [readValue, if_neg (by decide), if_neg (by decide), if_neg (by decide),
        if_neg (by decide), if_pos rfl]
      cases items with
      | nil => rfl
      | cons item items =>
        have hread := readItems_joined (item :: items) (by simp) heach fuel rest (by omega)
        obtain ⟨c, t, htext, hstart⟩ := plain_starts (heach item mem_cons_self).1
        obtain ⟨hspace, hclose, -⟩ := not_space_of_isStart hstart
        generalize hjoined : joined (plainItems ((item :: items).map normal)) ++ ']' :: rest = text
          at hread ⊢
        have hhead : ∃ t, text = c :: t := by
          rw [← hjoined]
          simp [plainItems, joined, htext]
        obtain ⟨t, rfl⟩ := hhead
        rw [skip_cons hspace]
        split
        · rename_i heq
          exact absurd (List.cons.inj heq).1 hclose
        · rw [hread]
          rfl
  | object members ih =>
    intro hkeys hinteger fuel rest hfuel hends
    obtain ⟨fuel, rfl⟩ : ∃ n, fuel = n + 1 := ⟨fuel - 1, by omega⟩
    cases hkeys with
    | object _ honce hkeys =>
      rw [integersOnly_object] at hinteger
      have heach : ∀ m ∈ sort_by_key members, IntegersOnly m.2 ∧ ReadBack float m.2 := by
        intro m hm
        have hm := (sort_by_key_perm members).mem_iff.mp hm
        exact ⟨hinteger m hm, ih m hm (hkeys m hm) (hinteger m hm)⟩
      have hcollect : ((sort_by_key members).map (Prod.map id normal)).foldl insertMember [] =
          (sort_by_key members).map (Prod.map id normal) := by
        apply foldl_insertMember
        rw [List.map_map]
        exact sort_by_key_once honce
      rw [normal_object, plain] at hfuel ⊢
      simp only [cons_append, append_assoc, nil_append, length_cons,
        length_append, length_nil] at hfuel ⊢
      rw [readValue, if_neg (by decide), if_neg (by decide), if_neg (by decide),
        if_neg (by decide), if_neg (by decide), if_pos rfl]
      cases hsorted : sort_by_key members with
      | nil => rfl
      | cons m sorted =>
        rw [hsorted] at heach hcollect hfuel
        have hread := readMembers_joined (m :: sorted) (by simp) heach fuel rest (by omega)
        generalize hjoined : joined (plainMembers ((m :: sorted).map (Prod.map id normal))) ++
          '\x7d' :: rest = text at hread ⊢
        have hhead : ∃ t, text = '"' :: t := by
          rw [← hjoined]
          simp [plainMembers, joined, quoted, Prod.map]
        obtain ⟨t, rfl⟩ := hhead
        rw [skip_cons (by decide)]
        split
        · rename_i heq
          exact absurd (List.cons.inj heq).1 (by decide)
        · rw [hread]
          simp only [bind_eq_bind, bind_some, hcollect]

theorem read_canonical (float : List Char → Option UInt64) (hkeys : v.KeysOnce)
    (hinteger : IntegersOnly v) :
    Reader.read float (utf8 (plain (normal v))) = some (normal v) := by
  have hbytes : (⟨(utf8 (plain (normal v))).toArray⟩ : ByteArray) =
      (String.ofList (plain (normal v))).toByteArray := by
    apply ByteArray.ext
    apply Array.toList_inj.mp
    simp [utf8, List.utf8Encode]
  have htext : String.fromUTF8? ⟨(utf8 (plain (normal v))).toArray⟩ =
      some (String.ofList (plain (normal v))) := by
    rw [hbytes]
    unfold String.fromUTF8?
    rw [dif_pos (String.isValidUTF8 _)]
    rfl
  have hread := readValue_plain float v hkeys hinteger ((plain (normal v)).length + 1) []
    (by omega) (by rintro c ⟨⟩)
  have hskip := skip_plain hinteger []
  rw [append_nil] at hread hskip
  unfold Reader.read readText
  rw [htext, bind_some, String.toList_ofList, hskip, hread]
  rfl

/-! ## Equal values -/

theorem normalNumber_eq_iff (a b : Number) : a.same b = true ↔ normalNumber a = normalNumber b := by
  have hkey : a.same b = true ↔ a.integer = b.integer ∧ (a.integer = none → a = b) := by
    unfold Number.same
    cases ha : a.integer <;> cases hb : b.integer <;> simp
  rw [hkey]
  constructor
  · rintro ⟨hinteger, hfloat⟩
    unfold normalNumber
    rw [← hinteger]
    cases ha : a.integer with
    | none => exact hfloat ha
    | some i => cases i <;> rfl
  · intro h
    have hinteger : a.integer = b.integer := by
      rw [← integer_normalNumber a, ← integer_normalNumber b, h]
    refine ⟨hinteger, fun ha => ?_⟩
    unfold normalNumber at h
    rw [← hinteger, ha] at h
    exact h

theorem get_object (members : List (String × Value)) (honce : (members.map Prod.fst).Nodup)
    (key : String) (value : Value) :
    (Value.object members).get key = some value ↔ (key, value) ∈ members := by
  unfold Value.get
  simp only [map_eq_some_iff]
  constructor
  · rintro ⟨⟨k, v⟩, hfind, rfl⟩
    have hkey : k = key := by simpa using find?_some hfind
    exact hkey ▸ mem_of_find?_eq_some hfind
  · intro hmem
    cases hfind : members.find? (fun m => m.1 == key) with
    | none =>
      have hnone := find?_eq_none.mp hfind (key, value) hmem
      simp at hnone
    | some found =>
      have hkey : found.1 = key := by simpa using find?_some hfind
      have hsame : found = (key, value) :=
        inj_on_of_nodup_map honce (mem_of_find?_eq_some hfind) hmem hkey
      exact ⟨found, rfl, by rw [hsame]⟩

theorem sameMembers_iff (members others : List (String × Value))
    (honce : (others.map Prod.fst).Nodup) :
    Value.sameMembers members others = true ↔
      ∀ m ∈ members, ∃ value, (m.1, value) ∈ others ∧ m.2.same value = true := by
  induction members with
  | nil => simp [Value.sameMembers]
  | cons m members ih =>
    obtain ⟨key, value⟩ := m
    rw [Value.sameMembers, Bool.and_eq_true, ih, forall_mem_cons]
    refine and_congr_left' ?_
    cases hget : (Value.object others).get key with
    | none =>
      simp only [Bool.false_eq_true, false_iff, not_exists, not_and]
      intro other hmem
      rw [(get_object others honce key other).mpr hmem] at hget
      cases hget
    | some found =>
      have hfound := (get_object others honce key found).mp hget
      constructor
      · intro hsame
        exact ⟨found, hfound, hsame⟩
      · rintro ⟨other, hmem, hsame⟩
        rw [(get_object others honce key other).mpr hmem] at hget
        rwa [← Option.some.inj hget]

theorem sameItems_iff {items : List Value} (others : List Value)
    (h : ∀ v ∈ items, ∀ w ∈ others, v.same w = true ↔ normal v = normal w) :
    Value.sameItems items others = true ↔ items.map normal = others.map normal := by
  induction items generalizing others with
  | nil => cases others <;> simp [Value.sameItems]
  | cons item items ih =>
    cases others with
    | nil => simp [Value.sameItems]
    | cons other others =>
      rw [Value.sameItems, Bool.and_eq_true, map_cons, map_cons, List.cons.injEq,
        h item mem_cons_self other mem_cons_self,
        ih others (fun v hv w hw => h v (mem_cons_of_mem _ hv) w (mem_cons_of_mem _ hw))]

/-- Two maps are equal when they are written in the same order with the same values. -/
theorem sameObject_iff {members others : List (String × Value)}
    (honce : (members.map Prod.fst).Nodup) (honce' : (others.map Prod.fst).Nodup)
    (h : ∀ m ∈ members, ∀ n ∈ others, m.2.same n.2 = true ↔ normal m.2 = normal n.2) :
    (Value.object members).same (.object others) = true ↔
      normal (.object members) = normal (.object others) := by
  have hnormal : ∀ l : List (String × Value), (l.map Prod.fst).Nodup →
      ((normalMembers l).map Prod.fst).Nodup := fun l hl => by rwa [normalMembers_keys]
  have hmem : ∀ (l : List (String × Value)) (key : String) (value : Value),
      (key, value) ∈ normalMembers l ↔ ∃ v, (key, v) ∈ l ∧ normal v = value := by
    intro l key value
    rw [normalMembers_eq, List.mem_map]
    constructor
    · rintro ⟨⟨k, v⟩, hkv, heq⟩
      cases heq
      exact ⟨v, hkv, rfl⟩
    · rintro ⟨v, hkv, rfl⟩
      exact ⟨(key, v), hkv, rfl⟩
  rw [Value.same, Bool.and_eq_true, beq_iff_eq, sameMembers_iff members others honce', normal,
    normal, Value.object.injEq]
  constructor
  · rintro ⟨hlength, hmembers⟩
    apply sort_by_key_eq_of_perm (hnormal members honce)
    -- every written member of the one is one of the other, and there are as many
    have hsubset : normalMembers members ⊆ normalMembers others := by
      rintro ⟨key, value⟩ hkv
      obtain ⟨v, hv, rfl⟩ := (hmem members key value).mp hkv
      obtain ⟨w, hw, hsame⟩ := hmembers (key, v) hv
      exact (hmem others key _).mpr ⟨w, hw, ((h (key, v) hv (key, w) hw).mp hsame).symm⟩
    have hnodup : (normalMembers members).Nodup := (hnormal members honce).of_map
    apply (subperm_of_subset hnodup hsubset).perm_of_length_le
    rw [normalMembers_eq, normalMembers_eq, length_map, length_map, hlength]
  · intro hsorted
    have hperm : (normalMembers members).Perm (normalMembers others) :=
      (sort_by_key_perm _).symm.trans (hsorted ▸ sort_by_key_perm _)
    refine ⟨?_, ?_⟩
    · have hlength := hperm.length_eq
      rwa [normalMembers_eq, normalMembers_eq, length_map, length_map] at hlength
    · rintro ⟨key, v⟩ hv
      obtain ⟨w, hw, hsame⟩ := (hmem others key (normal v)).mp
        (hperm.mem_iff.mp ((hmem members key _).mpr ⟨v, hv, rfl⟩))
      exact ⟨w, hw, (h (key, v) hv (key, w) hw).mpr hsame.symm⟩

theorem same_iff (v : Value) : ∀ w : Value, v.KeysOnce → w.KeysOnce →
    (v.same w = true ↔ normal v = normal w) := by
  induction v using Value.induct with
  | null =>
    intro w _ _
    cases w <;> simp [Value.same, normal]
  | bool b =>
    intro w _ _
    cases w <;> simp [Value.same, normal]
  | number n =>
    intro w _ _
    cases w with
    | number m => rw [Value.same, normal, normal, Value.number.injEq, normalNumber_eq_iff]
    | _ => simp [Value.same, normal]
  | string text =>
    intro w _ _
    cases w <;> simp [Value.same, normal]
  | array items ih =>
    intro w hv hw
    cases hv with
    | array _ hv =>
      cases hw with
      | array others hw =>
        rw [Value.same, normal_array, normal_array, Value.array.injEq]
        exact sameItems_iff others (fun v hvm w hwm => ih v hvm w (hv v hvm) (hw w hwm))
      | _ => simp [Value.same, normal]
  | object members ih =>
    intro w hv hw
    cases hv with
    | object _ honce hv =>
      cases hw with
      | object others honce' hw =>
        exact sameObject_iff honce honce' (fun m hm n hn => ih m hm n.2 (hv m hm) (hw n hn))
      | _ => simp [Value.same, normal]

theorem normalNumber_normalNumber (n : Number) :
    normalNumber (normalNumber n) = normalNumber n := by
  apply (normalNumber_eq_iff _ _).mp
  unfold Number.same
  rw [integer_normalNumber]
  cases hinteger : n.integer with
  | none => simp [normalNumber, hinteger]
  | some i => simp

theorem normal_normal (v : Value) : v.KeysOnce → normal (normal v) = normal v := by
  induction v using Value.induct with
  | null => exact fun _ => rfl
  | bool b => exact fun _ => rfl
  | number n =>
    intro _
    rw [normal, normal, normalNumber_normalNumber]
  | string text => exact fun _ => rfl
  | array items ih =>
    rintro (_ | _ | _ | _ | ⟨_, h⟩ | _)
    rw [normal_array, normal_array, List.map_map]
    congr 1
    apply map_congr_left
    intro v hv
    exact ih v hv (h v hv)
  | object members ih =>
    rintro (_ | _ | _ | _ | _ | ⟨_, honce, h⟩)
    have heach : (sort_by_key members).map (Prod.map id normal ∘ Prod.map id normal) =
        (sort_by_key members).map (Prod.map id normal) := by
      apply map_congr_left
      intro m hm
      have hm := (sort_by_key_perm members).mem_iff.mp hm
      exact Prod.ext rfl (ih m hm (h m hm))
    have hsorted : sort_by_key (sort_by_key members) = sort_by_key members :=
      sort_by_key_eq_of_perm (sort_by_key_once honce) (sort_by_key_perm members)
    rw [normal_object, normal_object, sort_by_key_map, List.map_map, hsorted, heach]

theorem keysOnce_normal (v : Value) : v.KeysOnce → (normal v).KeysOnce := by
  induction v using Value.induct with
  | null => exact id
  | bool b => exact id
  | number n => exact fun _ => .number _
  | string text => exact id
  | array items ih =>
    rintro (_ | _ | _ | _ | ⟨_, h⟩ | _)
    rw [normal_array]
    refine .array _ ?_
    intro w hw
    obtain ⟨v, hv, rfl⟩ := List.mem_map.mp hw
    exact ih v hv (h v hv)
  | object members ih =>
    rintro (_ | _ | _ | _ | _ | ⟨_, honce, h⟩)
    rw [normal_object]
    refine .object _ ?_ ?_
    · rw [List.map_map]
      exact sort_by_key_once honce
    · intro n hn
      obtain ⟨m, hm, rfl⟩ := List.mem_map.mp hn
      have hm := (sort_by_key_perm members).mem_iff.mp hm
      exact ih m hm (h m hm)

/-- The bytes are there exactly when every number in the value is an integer,
they are those of an equal value and of no other, and reading them gives an
equal value back. `float` reads the numbers that are no integers. -/
theorem canonical_bytes_are_an_identity (float : List Char → Option UInt64) :
    (∀ v : Tree, (∃ bytes, canonicalize v.value = .ok bytes) ↔
      ∀ n, Reaches v.value (.number n) → n.as_u64.isSome ∨ n.as_i64.isSome) ∧
    (∀ (v w : Tree) (bytes bytes' : List UInt8), canonicalize v.value = .ok bytes →
      canonicalize w.value = .ok bytes' → (bytes = bytes' ↔ v.value.same w.value = true)) ∧
    ∀ (v : Tree) (bytes : List UInt8), canonicalize v.value = .ok bytes →
      ∃ w : Tree, Reader.read float bytes = some w.value ∧ v.value.same w.value = true := by
  refine ⟨?_, ?_, ?_⟩
  · intro v
    constructor
    · rintro ⟨bytes, h⟩
      exact ((canonicalize_ok_iff _ _).mp h).1
    · intro h
      exact ⟨_, (canonicalize_ok_iff _ _).mpr ⟨h, rfl⟩⟩
  · intro v w bytes bytes' hv hw
    obtain ⟨hintegers, rfl⟩ := (canonicalize_ok_iff _ _).mp hv
    obtain ⟨hintegers', rfl⟩ := (canonicalize_ok_iff _ _).mp hw
    rw [same_iff _ _ v.keys_once w.keys_once]
    constructor
    · intro heq
      have hread := read_canonical float v.keys_once hintegers
      rw [heq, read_canonical float w.keys_once hintegers'] at hread
      exact (Option.some.inj hread).symm
    · intro heq
      rw [heq]
  · intro v bytes h
    obtain ⟨hintegers, rfl⟩ := (canonicalize_ok_iff _ _).mp h
    refine ⟨⟨normal v.value, keysOnce_normal _ v.keys_once⟩,
      read_canonical float v.keys_once hintegers, ?_⟩
    rw [same_iff _ _ v.keys_once (keysOnce_normal _ v.keys_once), normal_normal _ v.keys_once]

/-- One object with its members stored in two orders. -/
def exampleTree (members : List (String × Value)) (once : (members.map Prod.fst).Nodup)
    (h : ∀ m ∈ members, m.2.KeysOnce) : Tree :=
  ⟨.object members, .object members once h⟩

theorem stored_order_does_not_change_the_bytes :
    ∃ bytes, canonicalize (.object [("b", .bool true), ("a", .null)]) = .ok bytes ∧
      canonicalize (.object [("a", .null), ("b", .bool true)]) = .ok bytes ∧
      (Value.object [("b", .bool true), ("a", .null)]).same
        (.object [("a", .null), ("b", .bool true)]) = true ∧
      ∃ w : Tree, Reader.read (fun _ => none) bytes = some w.value := by
  have hkeys : ∀ m ∈ [("b", Value.bool true), ("a", Value.null)], m.2.KeysOnce := by
    rintro m (_ | ⟨_, _ | ⟨_, ⟨⟩⟩⟩)
    · exact .bool true
    · exact .null
  have hkeys' : ∀ m ∈ [("a", Value.null), ("b", Value.bool true)], m.2.KeysOnce := by
    rintro m (_ | ⟨_, _ | ⟨_, ⟨⟩⟩⟩)
    · exact .null
    · exact .bool true
  let v := exampleTree _ (by decide) hkeys
  let w := exampleTree _ (by decide) hkeys'
  obtain ⟨-, hidentity, hread⟩ := canonical_bytes_are_an_identity (fun _ => none)
  have hv : canonicalize v.value = .ok (utf8 "\x7b\"a\":null,\"b\":true\x7d".toList) := by rfl
  have hw : canonicalize w.value = .ok (utf8 "\x7b\"a\":null,\"b\":true\x7d".toList) := by rfl
  obtain ⟨r, hr, -⟩ := hread v _ hv
  exact ⟨_, hv, hw, (hidentity v w _ _ hv hw).mp rfl, r, hr⟩

end ottto_service.canonical_json
