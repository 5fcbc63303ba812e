-- What the start-verdict log holds: rows without line feeds, each on a line of its own
-- (snapshots/start_verdict_store.rs).
import Ottto.StartVerdicts

namespace ottto_service.start_verdict_store

open serde_json canonical_json accumulator Bool List SortedMap
open claude_request_identity.accepted (of_i64)

/-! ## The text of a row -/

/-- A printing character of one byte. -/
def Printing (c : Char) : Prop := 32 ≤ c.toNat ∧ c.toNat < 127

variable {c : Char}

theorem utf8_printing (h : Printing c) : String.utf8EncodeChar c = [UInt8.ofNat c.toNat] := by
  have hle : c.val.toNat ≤ 127 := h.2.le
  unfold String.utf8EncodeChar
  simp only [hle, if_true]
  rfl

theorem hexdigit_range (h : is_ascii_hexdigit c = true) :
    48 ≤ c.toNat ∧ c.toNat ≤ 57 ∨ 97 ≤ c.toNat ∧ c.toNat ≤ 102 ∨ 65 ≤ c.toNat ∧ c.toNat ≤ 70 := by
  unfold is_ascii_hexdigit at h
  simp only [or_eq_true, and_eq_true, decide_eq_true_eq, Char.isDigit] at h
  rcases h with (⟨hlow, hhigh⟩ | ⟨hlow, hhigh⟩) | ⟨hlow, hhigh⟩
  · exact .inl ⟨hlow, hhigh⟩
  · exact .inr (.inl ⟨hlow, hhigh⟩)
  · exact .inr (.inr ⟨hlow, hhigh⟩)

theorem escape_hexdigit (h : is_ascii_hexdigit c = true) :
    escape_char c = [c] := by
  have hrange := hexdigit_range h
  have hne : ∀ d : Char, ¬ (48 ≤ d.toNat ∧ d.toNat ≤ 57 ∨ 97 ≤ d.toNat ∧ d.toNat ≤ 102 ∨
      65 ≤ d.toNat ∧ d.toNat ≤ 70) → c ≠ d := by
    rintro d hd rfl
    exact hd hrange
  have hbig : ¬ c.toNat < 0x20 := by omega
  unfold escape_char
  rw [if_neg (hne _ (by decide)), if_neg (hne _ (by decide)), if_neg (hne _ (by decide)),
    if_neg (hne _ (by decide)), if_neg (hne _ (by decide)), if_neg (hne _ (by decide)),
    if_neg (hne _ (by decide)), if_neg hbig]

theorem escape_key {key : String}
    (h : valid_key key = true) : key.toList.flatMap escape_char = key.toList := by
  have hall : ∀ c ∈ key.toList, escape_char c = [c] := by
    unfold valid_key at h
    rw [and_eq_true, all_eq_true] at h
    exact fun c hc => escape_hexdigit (h.2 c hc)
  rw [flatMap_congr hall]
  exact flatMap_singleton' _

/-- The decimal text of a 64-bit number. -/
def decimal (n : Int64) : List Char := plain (of_i64 n)

theorem decimal_eq (n : Int64) : decimal n = (toString n.toInt).toList := by
  unfold decimal of_i64
  split
  · rename_i hpos
    have hinteger : (Number.PosInt n.toUInt64).integer = some n.toInt :=
      congrArg some (claude_request_identity.accepted.toUInt64_toNat n hpos)
    simp [plain, integerText, hinteger]
  · simp [plain, integerText, Number.integer]

/-- The digits, with a sign before those of a negative number. -/
theorem decimal_digits (n : Int64) :
    (∃ m < 2 ^ 63, decimal n = Nat.toDigits 10 m) ∨
      ∃ m ≤ 2 ^ 63, decimal n = '-' :: Nat.toDigits 10 m := by
  rw [decimal_eq]
  have hlow := n.le_toInt
  have hhigh := n.toInt_lt
  cases hn : n.toInt with
  | ofNat m =>
    rw [hn] at hhigh
    refine .inl ⟨m, Int.ofNat_lt.mp hhigh, ?_⟩
    exact Nat.toList_repr
  | negSucc m =>
    refine .inr ⟨m + 1, by omega, ?_⟩
    show ("-" ++ (m + 1).repr).toList = _
    rw [String.toList_append, Nat.toList_repr]
    rfl

theorem decimal_length (n : Int64) : (decimal n).length ≤ 20 := by
  rcases decimal_digits n with ⟨m, hm, htext⟩ | ⟨m, hm, htext⟩
  · rw [htext, Nat.length_toDigits_le_iff (by decide) (by decide)]
    omega
  · have hdigits : (Nat.toDigits 10 m).length ≤ 19 := by
      rw [Nat.length_toDigits_le_iff (by decide) (by decide)]
      omega
    rw [htext, length_cons]
    omega

theorem printing_digits (m : Nat) : ∀ c ∈ Nat.toDigits 10 m, Printing c := by
  intro c hc
  have hdigit := Nat.isDigit_of_mem_toDigits (by decide) (by decide) hc
  have hrange := hexdigit_range (c := c) (by simp [is_ascii_hexdigit, hdigit])
  unfold Printing
  omega

theorem printing_decimal (n : Int64) : ∀ c ∈ decimal n, Printing c := by
  rcases decimal_digits n with ⟨m, -, htext⟩ | ⟨m, -, htext⟩
  · rw [htext]
    exact printing_digits m
  · rw [htext]
    intro c hc
    rcases mem_cons.mp hc with rfl | hc
    · exact ⟨by decide, by decide⟩
    · exact printing_digits m c hc

def text (entry : Entry) : List Char := '\x7b' :: joined (plainMembers (members entry)) ++ ['\x7d']

variable {entry : Entry}

theorem text_eq (h : valid_key entry.key = true) :
    text entry = "\x7b\"key\":\"".toList ++ (entry.key.toList ++ ("\",\"measured\":".toList ++
      (plain (.bool entry.measured) ++ (",\"at\":".toList ++ (decimal entry.at_seconds ++ ['\x7d']))))) := by
  have hkey : quoted "key" = "\"key\"".toList := by decide
  have hmeasured : quoted "measured" = "\"measured\"".toList := by decide
  have hat : quoted "at" = "\"at\"".toList := by decide
  have htext : plain (.string entry.key) = '"' :: entry.key.toList ++ ['"'] := by
    unfold plain quoted
    rw [escape_key h]
  unfold text members decimal
  simp [plainMembers, joined, hkey, hmeasured, hat, htext]

theorem printing_text (h : valid_key entry.key = true) : ∀ c ∈ text entry, Printing c := by
  have hfixed : ∀ s : List Char, s.all (fun c => decide (32 ≤ c.toNat ∧ c.toNat < 127)) = true →
      ∀ c ∈ s, Printing c := by
    intro s hs c hc
    unfold Printing
    exact of_decide_eq_true (all_eq_true.mp hs c hc)
  have hkey : ∀ c ∈ entry.key.toList, Printing c := by
    intro c hc
    unfold valid_key at h
    rw [and_eq_true, all_eq_true] at h
    have hrange := hexdigit_range (h.2 c hc)
    unfold Printing
    omega
  have hbool : ∀ c ∈ plain (.bool entry.measured), Printing c := by
    cases entry.measured
    · exact hfixed _ (by decide)
    · exact hfixed _ (by decide)
  rw [text_eq h]
  intro c hc
  simp only [mem_append] at hc
  rcases hc with hc | hc | hc | hc | hc | hc | hc
  · exact hfixed _ (by decide) c hc
  · exact hkey c hc
  · exact hfixed _ (by decide) c hc
  · exact hbool c hc
  · exact hfixed _ (by decide) c hc
  · exact printing_decimal _ c hc
  · exact hfixed _ (by decide) c hc

theorem utf8_of_printing {text : List Char} (h : ∀ c ∈ text, Printing c) :
    utf8 text = text.map (fun c => UInt8.ofNat c.toNat) := by
  unfold utf8
  rw [flatMap_congr (fun c hc => utf8_printing (h c hc))]
  exact flatMap_pure_eq_map _ _

theorem to_vec_eq (h : valid_key entry.key = true) :
    to_vec entry = (text entry).map (fun c => UInt8.ofNat c.toNat) := utf8_of_printing (printing_text h)

/-- No byte of a row's text ends a line. -/
theorem not_mem_to_vec (h : valid_key entry.key = true) : (10 : UInt8) ∉ to_vec entry := by
  rw [to_vec_eq h]
  intro hmem
  obtain ⟨c, hc, hbyte⟩ := mem_map.mp hmem
  have hprinting := printing_text h c hc
  unfold Printing at hprinting
  have hnat := congrArg UInt8.toNat hbyte
  rw [UInt8.toNat_ofNat_of_lt' (hprinting.2.trans (by decide))] at hnat
  have hten : (10 : UInt8).toNat = 10 := rfl
  omega

theorem to_vec_last (h : valid_key entry.key = true) : (to_vec entry).getLast? ≠ some 13 := by
  rw [to_vec_eq h]
  unfold text
  rw [map_append, map_singleton, getLast?_concat]
  decide

theorem row_length (h : valid_key entry.key = true) : (row entry).length ≤ 118 := by
  have hdecimal := decimal_length entry.at_seconds
  have hkey : entry.key.toList.length = 64 := by
    unfold valid_key at h
    rw [and_eq_true, decide_eq_true_eq] at h
    exact h.1
  have hbool : (plain (.bool entry.measured)).length ≤ 5 := by cases entry.measured <;> decide
  have hfixed : "\x7b\"key\":\"".toList.length = 8 ∧ "\",\"measured\":".toList.length = 13 ∧
      ",\"at\":".toList.length = 6 := by decide
  unfold row
  rw [length_append, to_vec_eq h, length_map, text_eq h]
  simp only [length_append, hkey, hfixed, length_singleton]
  omega

/-! ## Lines -/

/-- Every row stands on a line that is ended. -/
def ends_line (log : Bytes) : Bool := log.getLast?.all (fun byte => byte == 10)

theorem ends_line_row (log : Bytes) (entry : Entry) : ends_line (log ++ row entry) = true := by
  unfold ends_line row
  rw [← append_assoc, getLast?_concat]
  rfl

variable {log : Bytes}

theorem splitOn_ends (h : ends_line log = true) :
    ∃ parts, ∀ more, (log ++ more).splitOn 10 = parts ++ more.splitOn 10 := by
  rcases eq_nil_or_concat log with rfl | ⟨before, last, rfl⟩
  · exact ⟨[], by simp⟩
  · unfold ends_line at h
    rw [concat_eq_append, getLast?_concat, Option.all_some, beq_iff_eq] at h
    subst h
    refine ⟨before.splitOn 10, ?_⟩
    intro more
    rw [concat_eq_append, append_assoc, singleton_append,
      splitOn_append_cons_self]

theorem lines_append (h : ends_line log = true) (hentry : valid_key entry.key = true) :
    lines (log ++ row entry) = lines log ++ [to_vec entry] := by
  obtain ⟨parts, hparts⟩ := splitOn_ends h
  have hlog : log.splitOn 10 = parts ++ [[]] := by
    rw [← append_nil log, hparts, splitOn_nil]
  have hrow : (row entry).splitOn 10 = [to_vec entry, []] := by
    unfold row
    rw [splitOn_append_cons_self, splitOn_eq_singleton (not_mem_to_vec hentry)]
    rfl
  have hjoined : parts ++ [to_vec entry, []] = (parts ++ [to_vec entry]) ++ [[]] := by simp
  unfold lines
  rw [hparts, hrow, hlog, hjoined]
  simp [to_vec_last hentry, Option.filter]

/-! ## Reading -/

/-- Each entry stands under its own key, which has the shape of a digest. -/
def Valid (verdicts : SortedMap String Entry) : Prop :=
  ∀ e ∈ verdicts.entries, e.2.key = e.1 ∧ valid_key e.1 = true

variable (reader : EntryReader) {verdicts : SortedMap String Entry}

theorem read_line_row (h : valid_key entry.key = true)
    (hsize : (verdicts.insert entry.key entry).size ≤ MAX_SESSIONS) :
    read_line reader verdicts (to_vec entry) = .ok (verdicts.insert entry.key entry) := by
  unfold read_line
  rw [reader.reads_back entry h]
  simp [bind, Except.bind, h, not_lt.mpr hsize, pure, Except.pure]

/-- What a line adds is valid, and below the cap. -/
theorem read_line_valid {line : Bytes} {next : SortedMap String Entry} (hvalid : Valid verdicts)
    (h : read_line reader verdicts line = .ok next) : Valid next ∧ next.size ≤ MAX_SESSIONS := by
  unfold read_line at h
  cases hread : reader.from_str line with
  | error error =>
    rw [hread] at h
    cases h
  | ok entry =>
    rw [hread] at h
    simp only [bind, Except.bind] at h
    cases hkey : valid_key entry.key with
    | false =>
      rw [hkey] at h
      cases h
    | true =>
      rw [hkey] at h
      simp only [Bool.not_true, false_eq_true, if_false, pure, Except.pure] at h
      split_ifs at h with hcap
      cases h
      refine ⟨?_, not_lt.mp hcap⟩
      intro e he
      rcases mem_insertEntry he with rfl | he
      · exact ⟨rfl, hkey⟩
      · exact hvalid e he

theorem read_valid (h : read reader log = .ok verdicts) :
    log.length ≤ MAX_BYTES ∧ Valid verdicts ∧ verdicts.size ≤ MAX_SESSIONS := by
  have hfold : ∀ (lines : List Bytes) (start : SortedMap String Entry), Valid start →
      start.size ≤ MAX_SESSIONS → lines.foldlM (read_line reader) start = .ok verdicts →
        Valid verdicts ∧ verdicts.size ≤ MAX_SESSIONS := by
    intro lines
    induction lines with
    | nil =>
      intro start hvalid hsize hfold
      cases hfold
      exact ⟨hvalid, hsize⟩
    | cons line lines ih =>
      intro start hvalid hsize hfold
      rw [foldlM_cons] at hfold
      cases hline : read_line reader start line with
      | error error =>
        rw [hline] at hfold
        cases hfold
      | ok next =>
        rw [hline] at hfold
        obtain ⟨hnext, hcap⟩ := read_line_valid reader hvalid hline
        exact ih next hnext hcap hfold
  unfold read at h
  split_ifs at h with hlength
  exact ⟨not_lt.mp hlength, hfold (lines log) .empty (by simp [Valid, SortedMap.empty])
    (Nat.zero_le _) h⟩

theorem read_append (h : read reader log = .ok verdicts) (hends : ends_line log = true)
    (hentry : valid_key entry.key = true) (hlength : (log ++ row entry).length ≤ MAX_BYTES)
    (hsize : (verdicts.insert entry.key entry).size ≤ MAX_SESSIONS) :
    read reader (log ++ row entry) = .ok (verdicts.insert entry.key entry) := by
  unfold read at h ⊢
  split_ifs at h with hlong
  rw [if_neg (not_lt.mpr hlength), lines_append hends hentry, foldlM_append, h]
  simp only [bind, Except.bind, foldlM_cons, foldlM_nil]
  rw [read_line_row reader hentry hsize]
  rfl

theorem ends_line_rows (entries : List (String × Entry)) :
    ends_line (entries.flatMap (fun e => row e.2)) = true := by
  rcases eq_nil_or_concat entries with rfl | ⟨before, last, rfl⟩
  · rfl
  · rw [concat_eq_append, flatMap_append, flatMap_singleton]
    exact ends_line_row _ _

theorem rows_eq : rows verdicts = verdicts.entries.flatMap (fun e => row e.2) := by
  unfold rows SortedMap.values
  rw [flatMap_map]

theorem rows_length (h : Valid verdicts) : (rows verdicts).length ≤ 118 * verdicts.size := by
  rw [rows_eq, length_flatMap]
  have hle : ∀ n ∈ verdicts.entries.map (fun e => (row e.2).length), n ≤ 118 := by
    intro n hn
    obtain ⟨e, he, rfl⟩ := mem_map.mp hn
    obtain ⟨hkey, hvalid⟩ := h e he
    exact row_length (by rw [hkey]; exact hvalid)
  have hsum := sum_le_card_nsmul _ 118 hle
  rw [length_map, smul_eq_mul, Nat.mul_comm] at hsum
  exact hsum

/-- A compacted log reads back as what it was written from. -/
theorem read_rows (h : Valid verdicts) (hsize : verdicts.size ≤ MAX_SESSIONS) :
    read reader (rows verdicts) = .ok verdicts := by
  have hlength : ¬ MAX_BYTES < (rows verdicts).length := by
    have hle := rows_length h
    unfold MAX_SESSIONS at hsize
    unfold MAX_BYTES
    omega
  have hfold : ∀ (entries : List (String × Entry)), entries.length ≤ MAX_SESSIONS →
      (∀ e ∈ entries, e.2.key = e.1 ∧ valid_key e.1 = true) →
      entries.Pairwise (fun a b => a.1 < b.1) →
      ∃ found, (lines (entries.flatMap (fun e => row e.2))).foldlM (read_line reader) .empty = .ok found ∧
        found.entries = entries := by
    intro entries
    induction entries using List.reverseRecOn with
    | nil => exact fun _ _ _ => ⟨.empty, rfl, rfl⟩
    | append_singleton entries e ih =>
      intro hcap hvalid hsorted
      rw [length_append, length_singleton] at hcap
      obtain ⟨hbefore, -, hlast⟩ := pairwise_append.mp hsorted
      obtain ⟨found, hfound, hentries⟩ := ih (by omega)
        (fun e he => hvalid e (mem_append_left _ he)) hbefore
      obtain ⟨hkey, hvalid_key⟩ := hvalid e (by simp)
      have hinsert : (found.insert e.2.key e.2).entries = entries ++ [e] := by
        rw [entries_insert_of_lt, hentries, hkey]
        intro other hother
        rw [hentries] at hother
        rw [hkey]
        exact hlast other hother e (by simp)
      refine ⟨found.insert e.2.key e.2, ?_, hinsert⟩
      rw [flatMap_append, flatMap_singleton, lines_append (ends_line_rows entries)
        (by rw [hkey]; exact hvalid_key), foldlM_append, hfound]
      simp only [bind, Except.bind, foldlM_cons, foldlM_nil]
      rw [read_line_row reader (by rw [hkey]; exact hvalid_key) (by
        unfold SortedMap.size
        rw [hinsert, length_append, length_singleton]
        exact hcap)]
      rfl
  obtain ⟨found, hfound, hentries⟩ := hfold verdicts.entries hsize h verdicts.sorted
  unfold read
  rw [if_neg hlength, rows_eq, hfound]
  exact congrArg Except.ok (ext_entries hentries)

end ottto_service.start_verdict_store
