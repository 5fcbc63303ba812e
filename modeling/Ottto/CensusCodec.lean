-- The two spellings of the hashes and the record's wire form are read back exactly
-- (claude_request_census.rs).
import Ottto.CensusRecord

namespace ottto_service.claude_request_census

open List ClaudeRequestCensusRecord StandardBase64

open serde_json (Value)
open claude_money_birth_store (Digest)
open durable_tail_codec.Durable (as_bytes as_bytes_ofList)
open durable_tail_codec.HDigest (hex nibble hex_byte nibble_hex_byte split_byte as_bytes_hex)

/-! ## Chunks -/

section Chunks

variable {α β : Type}

theorem chunks_nil (size : Nat) : chunks size ([] : List α) = [] := by
  rw [chunks]
  simp

variable {size : Nat}

theorem chunks_append {a : List α} (h : a.length = size) (hsize : 0 < size) (b : List α) :
    chunks size (a ++ b) = a :: chunks size b := by
  have hne : a ++ b ≠ [] := by
    intro hnil
    rw [append_eq_nil_iff.mp hnil |>.1] at h
    simp at h
    omega
  rw [chunks, dif_neg (by simp only [hne, false_or]; omega), take_left' h, drop_left' h]

/-- A last chunk may be short. -/
theorem chunks_short {a : List α} (hne : a ≠ []) (h : a.length ≤ size) :
    chunks size a = [a] := by
  have hpositive := length_pos_iff.mpr hne
  rw [chunks, dif_neg (by simp only [hne, false_or]; omega), take_of_length_le h,
    drop_eq_nil_of_le h, chunks_nil]

theorem chunks_flatMap {f : α → List β} (h : ∀ a, (f a).length = size) (hsize : 0 < size)
    (items : List α) : chunks size (items.flatMap f) = items.map f := by
  induction items with
  | nil => exact chunks_nil size
  | cons a items ih => rw [flatMap_cons, chunks_append (h a) hsize, ih, map_cons]

end Chunks

/-! ## Numbers in bytes and digits -/

theorem length_to_be_bytes (hash : UInt64) : (to_be_bytes hash).length = 8 := by
  simp [to_be_bytes]

theorem from_to_be_bytes (hash : UInt64) : from_be_bytes (to_be_bytes hash) = hash := by
  have hlt := hash.toNat_lt
  have hnumber : big_endian (to_be_bytes hash) = hash.toNat := by
    simp only [big_endian, to_be_bytes, map_cons, map_nil, foldl_cons, foldl_nil,
      UInt8.toNat_ofNat']
    omega
  rw [from_be_bytes, hnumber, UInt64.ofNat_toNat]

/-- The digits of one byte. -/
def digits (byte : UInt8) : List UInt8 :=
  [hex_byte (byte >>> 4).toNat, hex_byte (byte &&& 15).toNat]

theorem byte_of_nibbles : ∀ m < 256,
    (UInt8.ofNat m >>> 4).toNat * 16 + (UInt8.ofNat m &&& 15).toNat = m := by
  decide +kernel

theorem foldlM_digits (bytes : List UInt8) (n : Nat) :
    (bytes.flatMap digits).foldlM (fun n byte => (nibble byte).map (fun digit => n * 16 + digit.toNat)) n =
      some (bytes.foldl (fun n byte => n * 256 + byte.toNat) n) := by
  induction bytes generalizing n with
  | nil => rfl
  | cons byte bytes ih =>
    obtain ⟨hhigh, hlow, -⟩ := split_byte byte
    have hbyte := byte_of_nibbles byte.toNat byte.toNat_lt
    rw [UInt8.ofNat_toNat] at hbyte
    have hjoin : (n * 16 + (byte >>> 4).toNat) * 16 + (byte &&& 15).toNat = n * 256 + byte.toNat := by
      omega
    rw [flatMap_cons, foldlM_append, foldl_cons, ← ih]
    simp only [digits, foldlM_cons, foldlM_nil, nibble_hex_byte _ hhigh,
      nibble_hex_byte _ hlow, Option.map_some, UInt8.ofNat_toNat, Option.bind_eq_bind, Option.bind_some,
      Option.pure_def, hjoin]

theorem from_hex_digits (bytes : List UInt8) : from_hex (bytes.flatMap digits) = some (big_endian bytes) :=
  foldlM_digits bytes 0

theorem lower_hex_digits (bytes : List UInt8) : lower_hex (bytes.flatMap digits) = true := by
  unfold lower_hex
  rw [all_eq_true]
  intro b hb
  obtain ⟨byte, -, hbyte⟩ := mem_flatMap.mp hb
  obtain ⟨hhigh, hlow, -⟩ := split_byte byte
  rcases mem_cons.mp hbyte with rfl | hbyte
  · rw [nibble_hex_byte _ hhigh]
    rfl
  · rw [mem_singleton.mp hbyte, nibble_hex_byte _ hlow]
    rfl

theorem as_bytes_of_hex (bytes : List UInt8) : as_bytes (hex bytes) = bytes.flatMap digits :=
  as_bytes_hex bytes

theorem length_digits (byte : UInt8) : (digits byte).length = 2 := rfl

theorem decode_fingerprint_hex (fingerprint : Digest) :
    decode_fingerprint (hex fingerprint.1) = some fingerprint := by
  have hlength : (fingerprint.1.flatMap digits).length = 64 := by
    simp [length_flatMap, length_digits, fingerprint.2]
  have hread : ((fingerprint.1.map digits).mapM from_hex) = some (fingerprint.1.map UInt8.toNat) := by
    have hbyte : ∀ byte : UInt8, from_hex (digits byte) = some byte.toNat := by
      intro byte
      have hone := from_hex_digits [byte]
      simpa [big_endian] using hone
    induction fingerprint.1 with
    | nil => rfl
    | cons byte bytes ih => simp [hbyte, ih]
  have hback : (fingerprint.1.map UInt8.toNat).map UInt8.ofNat = fingerprint.1 := by
    rw [map_map]
    exact (map_congr_left (fun byte _ => UInt8.ofNat_toNat)).trans (map_id _)
  unfold decode_fingerprint
  simp only [as_bytes_of_hex, hlength, lower_hex_digits, ne_eq, not_true_eq_false, Bool.true_eq_false,
    or_self, if_false]
  rw [chunks_flatMap length_digits (by decide), hread, Option.bind_some]
  simp only [hback]
  rw [dif_pos fingerprint.2]

/-! ## The hashes -/

/-- Strictly ascending. -/
def Ascending (hashes : List UInt64) : Prop := hashes.Pairwise (· < ·)

theorem foldlM_push_hash (hashes read : List UInt64) (h : Ascending (read ++ hashes)) :
    hashes.foldlM push_hash read = some (read ++ hashes) := by
  induction hashes generalizing read with
  | nil => simp
  | cons hash hashes ih =>
    have hpush : push_hash read hash = some (read ++ [hash]) := by
      unfold push_hash
      cases hlast : read.getLast? with
      | none => simp
      | some last =>
        have hmem := mem_of_getLast? hlast
        have hlt : last < hash := (pairwise_append.mp h).2.2 last hmem hash mem_cons_self
        simp [hlt]
    rw [foldlM_cons, hpush, Option.bind_eq_bind, Option.bind_some, ih _ (by simpa using h)]
    simp

theorem digits_of_hashes (hashes : List UInt64) : as_bytes (hash_hex hashes) =
    hashes.flatMap (fun hash => (to_be_bytes hash).flatMap digits) := by
  rw [hash_hex, as_bytes_of_hex, flatMap_assoc]

theorem decode_hash_hex {hashes : List UInt64} (hne : hashes ≠ []) (h : Ascending hashes) :
    decode_hashes (hash_hex hashes) = some hashes := by
  have hsize : ∀ hash : UInt64, ((to_be_bytes hash).flatMap digits).length = 16 := by
    intro hash
    simp [length_flatMap, length_digits, length_to_be_bytes]
  have hlower : lower_hex (as_bytes (hash_hex hashes)) = true := by
    rw [hash_hex, as_bytes_of_hex]
    exact lower_hex_digits _
  have hlength : (as_bytes (hash_hex hashes)).length = 16 * hashes.length := by
    rw [digits_of_hashes, length_flatMap]
    simp [hsize, Nat.mul_comm]
  have hpositive := length_pos_iff.mpr hne
  have hsome : as_bytes (hash_hex hashes) ≠ [] := by
    intro hnil
    rw [hnil, length_nil] at hlength
    omega
  have hread : (hashes.map (fun hash => (to_be_bytes hash).flatMap digits)).mapM from_hex =
      some (hashes.map (fun hash => big_endian (to_be_bytes hash))) := by
    clear hne h hlower hlength hpositive hsome
    induction hashes with
    | nil => rfl
    | cons hash hashes ih => simp [from_hex_digits, ih]
  have hback : (hashes.map (fun hash => big_endian (to_be_bytes hash))).map UInt64.ofNat = hashes := by
    rw [map_map]
    exact (map_congr_left (fun hash _ => from_to_be_bytes hash)).trans (map_id _)
  unfold decode_hashes
  simp only [hsome, hlength, Nat.mul_mod_right, hlower, ne_eq, not_true_eq_false, Bool.true_eq_false,
    or_self, if_false]
  rw [digits_of_hashes, chunks_flatMap hsize (by decide), hread, Option.bind_some, hback]
  exact foldlM_push_hash hashes [] h

/-! ## The streamed base64 -/

def ascii (text : List Char) : List UInt8 := text.map (fun c => UInt8.ofNat c.toNat)

/-- Every symbol and the padding is one byte. -/
theorem base64_symbol : ∀ c ∈ '=' :: UrlSafe.alphabet.map to_standard,
    String.utf8EncodeChar c = [UInt8.ofNat c.toNat] ∧ Char.ofNat (UInt8.ofNat c.toNat).toNat = c := by
  have hall : ('=' :: UrlSafe.alphabet.map to_standard).all (fun c =>
      decide (String.utf8EncodeChar c = [UInt8.ofNat c.toNat] ∧
        Char.ofNat (UInt8.ofNat c.toNat).toNat = c)) = true := by
    decide
  intro c hc
  exact of_decide_eq_true (all_eq_true.mp hall c hc)

theorem base64_char {bytes : List UInt8} {c : Char} (h : c ∈ StandardBase64.encode bytes) :
    c ∈ '=' :: UrlSafe.alphabet.map to_standard := by
  rcases mem_append.mp h with h | h
  · obtain ⟨d, hd, rfl⟩ := mem_map.mp h
    exact mem_cons_of_mem _ (mem_map_of_mem (encode_mem d hd))
  · rw [eq_of_mem_replicate h]
    exact mem_cons_self

/-- The text of one chunk of hashes, as bytes. -/
def chunk_text (chunk : List UInt64) : List UInt8 :=
  ascii (StandardBase64.encode (chunk.flatMap to_be_bytes))

theorem length_be_bytes (hashes : List UInt64) : (hashes.flatMap to_be_bytes).length = 8 * hashes.length := by
  simp [length_flatMap, length_to_be_bytes, Nat.mul_comm]

theorem length_chunk_text (chunk : List UInt64) :
    (chunk_text chunk).length = (8 * chunk.length + 2) / 3 * 4 := by
  rw [chunk_text, ascii, length_map, length_encode, length_be_bytes]

theorem latin_chunk_text (chunk : List UInt64) :
    latin (chunk_text chunk) = StandardBase64.encode (chunk.flatMap to_be_bytes) := by
  unfold latin chunk_text ascii
  rw [map_map]
  refine (map_congr_left (fun c hc => ?_)).trans (map_id _)
  exact (base64_symbol c (base64_char hc)).2

theorem as_bytes_hash_base64 (hashes : List UInt64) :
    as_bytes (hash_base64 hashes) = (chunks 3 hashes).flatMap chunk_text := by
  rw [hash_base64, as_bytes_ofList, flatMap_assoc]
  congr 1
  funext chunk
  have hsymbols := fun c hc => (base64_symbol c (@base64_char (chunk.flatMap to_be_bytes) c hc)).1
  unfold chunk_text ascii
  generalize StandardBase64.encode (chunk.flatMap to_be_bytes) = text at hsymbols
  induction text with
  | nil => rfl
  | cons c text ih =>
    rw [flatMap_cons, hsymbols c mem_cons_self,
      ih (fun d hd => hsymbols d (mem_cons_of_mem c hd))]
    rfl

/-- Three hashes fill their text, so it carries no padding. -/
theorem unpadded {chunk : List UInt64} (h : chunk.length = 3) : 0x3D ∉ chunk_text chunk := by
  intro hmem
  obtain ⟨c, hc, hbyte⟩ := mem_map.mp hmem
  have hchar : c = '=' := by
    have hsame := (base64_symbol c (base64_char hc)).2
    rw [hbyte] at hsame
    exact hsame.symm
  subst hchar
  unfold StandardBase64.encode at hc
  have htext : ((UrlSafe.encode (chunk.flatMap to_be_bytes)).map to_standard).length = 32 := by
    rw [length_map, encode_length, length_be_bytes, h]
  dsimp only at hc
  rw [htext] at hc
  rcases mem_append.mp hc with hc | hc
  · obtain ⟨d, hd, heq⟩ := mem_map.mp hc
    exact (from_to_standard d (encode_mem d hd)).2 heq
  · simp [StandardBase64.padding] at hc

/-- One chunk of the text, whatever follows it. -/
theorem decode_chunk {chunk read : List UInt64} {rest : List (List UInt8)} (hne : chunk ≠ [])
    (hpadding : rest = [] ∨ chunk.length = 3) (h : Ascending (read ++ chunk)) :
    decode_base64_chunks (chunk_text chunk :: rest) read = decode_base64_chunks rest (read ++ chunk) := by
  have hguard : ¬ (rest ≠ [] ∧ 0x3D ∈ chunk_text chunk) := by
    rintro ⟨hrest, hmem⟩
    rcases hpadding with hnil | hthree
    · exact hrest hnil
    · exact unpadded hthree hmem
  have hpositive := length_pos_iff.mpr hne
  have hwhole : ¬ ((chunk.flatMap to_be_bytes).length = 0 ∨ (chunk.flatMap to_be_bytes).length % 8 ≠ 0) := by
    rw [length_be_bytes]
    omega
  have hback : (chunks 8 (chunk.flatMap to_be_bytes)).map from_be_bytes = chunk := by
    rw [chunks_flatMap length_to_be_bytes (by decide), map_map]
    exact (map_congr_left (fun hash _ => from_to_be_bytes hash)).trans (map_id _)
  change (if rest ≠ [] ∧ 0x3D ∈ chunk_text chunk then none else _) = _
  rw [if_neg hguard, latin_chunk_text, decode_encode,
    Option.bind_some, if_neg hwhole, hback, foldlM_push_hash chunk read h, Option.bind_some]

theorem decode_chunks (hashes read : List UInt64) (h : Ascending (read ++ hashes)) :
    decode_base64_chunks (chunks 32 ((chunks 3 hashes).flatMap chunk_text)) read =
      some (read ++ hashes) := by
  induction hlength : hashes.length using Nat.strong_induction_on generalizing hashes read with
  | h n ih =>
    by_cases hne : hashes = []
    · subst hne
      rw [chunks_nil, flatMap_nil, chunks_nil, append_nil]
      rfl
    have hpositive := length_pos_iff.mpr hne
    by_cases hlast : hashes.length ≤ 3
    · -- The last chunk, which may be short.
      have htext := length_chunk_text hashes
      have hsome : chunk_text hashes ≠ [] := by
        rw [← length_pos_iff, htext]
        omega
      rw [chunks_short hne hlast, flatMap_singleton, chunks_short hsome (by rw [htext]; omega),
        decode_chunk hne (.inl rfl) h]
      rfl
    · have hthree : (hashes.take 3).length = 3 := by
        rw [length_take]
        omega
      have hsplit := take_append_drop 3 hashes
      have hfull : (chunk_text (hashes.take 3)).length = 32 := by rw [length_chunk_text, hthree]
      have hstart : hashes.take 3 ≠ [] := by
        rw [← length_pos_iff, hthree]
        decide
      rw [← hsplit, ← append_assoc] at h
      rw [← hsplit, chunks_append hthree (by decide), flatMap_cons,
        chunks_append hfull (by decide), decode_chunk hstart (.inr hthree) (h.sublist (sublist_append_left _ _)),
        ih (hashes.drop 3).length (by rw [length_drop]; omega) (hashes.drop 3) _ h rfl,
        append_assoc]

theorem decode_hash_base64 {hashes : List UInt64} (hne : hashes ≠ []) (h : Ascending hashes) :
    decode_base64_hashes (hash_base64 hashes) = some hashes := by
  have hfour : (as_bytes (hash_base64 hashes)).length % 4 = 0 := by
    rw [as_bytes_hash_base64, length_flatMap]
    apply Nat.mod_eq_zero_of_dvd
    apply dvd_sum
    intro n hn
    obtain ⟨chunk, -, rfl⟩ := mem_map.mp hn
    rw [length_chunk_text]
    exact Nat.dvd_mul_left 4 _
  have hread := decode_chunks hashes [] h
  have hsome : as_bytes (hash_base64 hashes) ≠ [] := by
    intro hnil
    rw [← as_bytes_hash_base64, hnil, chunks_nil] at hread
    exact hne (Option.some.inj hread).symm
  unfold decode_base64_hashes
  simp only [hsome, hfour, ne_eq, not_true_eq_false, or_self, if_false]
  rw [as_bytes_hash_base64]
  exact hread

theorem url_safe_append (a b : List UInt8) (h : a.length % 3 = 0) :
    UrlSafe.encode (a ++ b) = UrlSafe.encode a ++ UrlSafe.encode b := by
  induction a using UrlSafe.encode.induct with
  | case1 => rfl
  | case2 x => simp at h
  | case3 x y => simp at h
  | case4 x y z rest ih =>
    have hrest : rest.length % 3 = 0 := by
      simp only [length_cons] at h
      omega
    simp [UrlSafe.encode, ih hrest]

/-- Text without padding goes before any other. -/
theorem standard_append (a b : List UInt8) (h : a.length % 3 = 0) :
    StandardBase64.encode (a ++ b) = StandardBase64.encode a ++ StandardBase64.encode b := by
  have hlength := encode_length a
  unfold StandardBase64.encode StandardBase64.padding
  rw [url_safe_append a b h]
  simp only [map_append, length_append, length_map]
  have hfirst : (4 - (UrlSafe.encode a).length % 4) % 4 = 0 := by omega
  have hsame : (4 - ((UrlSafe.encode a).length + (UrlSafe.encode b).length) % 4) % 4 =
      (4 - (UrlSafe.encode b).length % 4) % 4 := by omega
  rw [hfirst, hsame]
  simp

/-- The streamed text is the base64 of all the bytes. -/
theorem hash_base64_eq (hashes : List UInt64) :
    hash_base64 hashes = String.ofList (StandardBase64.encode (hashes.flatMap to_be_bytes)) := by
  unfold hash_base64
  congr 1
  induction hlength : hashes.length using Nat.strong_induction_on generalizing hashes with
  | h n ih =>
    by_cases hne : hashes = []
    · subst hne
      rw [chunks_nil]
      rfl
    by_cases hlast : hashes.length ≤ 3
    · rw [chunks_short hne hlast, flatMap_singleton]
    · have hthree : (hashes.take 3).length = 3 := by
        rw [length_take]
        omega
      have hrest := ih (hashes.drop 3).length (by rw [length_drop]; omega) (hashes.drop 3) rfl
      rw [← take_append_drop 3 hashes, chunks_append hthree (by decide), flatMap_cons, hrest,
        flatMap_append, standard_append _ _ (by rw [length_be_bytes, hthree])]

/-! ## The visitor -/

namespace RecordVisitor

def with_seen (r : Reading) (seen : List String) : Reading := { r with seen := seen }

/-- What is seen decides nothing about a value. -/
theorem field_seen (r : Reading) (seen : List String) (name : String) (value : Value) :
    field (with_seen r seen) name value = with_seen (field r name value) seen := by
  have hhashes : ∀ decode, hashes (with_seen r seen) decode value = with_seen (hashes r decode value) seen := by
    intro decode
    unfold hashes
    split <;> rfl
  unfold field
  split_ifs
  · exact hhashes _
  · exact hhashes _
  · split
    all_goals first | rfl | (split_ifs <;> rfl)

/-- The fields without the checks of what was seen. -/
def fields (r : Reading) (members : List (String × Value)) : Reading :=
  members.foldl (fun r member => field r member.1 member.2) r

theorem fields_seen (r : Reading) (seen : List String) (members : List (String × Value)) :
    fields (with_seen r seen) members = with_seen (fields r members) seen := by
  induction members generalizing r with
  | nil => rfl
  | cons member members ih =>
    have hfirst := field_seen r seen member.1 member.2
    unfold fields at ih ⊢
    rw [foldl_cons, foldl_cons, hfirst, ih]

theorem fields_append (r : Reading) (a b : List (String × Value)) :
    fields r (a ++ b) = fields (fields r a) b := foldl_append

/-- Known fields, each of them once and in one spelling. -/
structure Plain (seen names : List String) : Prop where
  known : ∀ name ∈ names, name ∈ FIELDS
  once : names.Nodup
  fresh : ∀ name ∈ names, name ∉ seen
  alone : ∀ name ∈ names, ∀ other ∈ other_spelling name, other ∉ seen ∧ other ∉ names

theorem foldl_visit {members : List (String × Value)} {r : Reading}
    (h : Plain r.seen (members.map Prod.fst)) :
    ∃ seen, members.foldl visit r = with_seen (fields r members) seen := by
  induction members generalizing r with
  | nil => exact ⟨r.seen, rfl⟩
  | cons member members ih =>
    obtain ⟨name, value⟩ := member
    have hother : (other_spelling name).any (fun other => decide (other ∈ r.seen)) = false := by
      cases hname : other_spelling name with
      | none => rfl
      | some other => simpa using (h.alone name (by simp) other hname).1
    have hvisit : visit r (name, value) = with_seen (field r name value) (name :: r.seen) := by
      unfold visit
      rw [if_neg (not_not.mpr (h.known name (by simp))), if_neg (by
        simp [h.fresh name (by simp), hother])]
      exact field_seen r (name :: r.seen) name value
    have hrest : Plain (name :: r.seen) (members.map Prod.fst) := by
      have honce := nodup_cons.mp h.once
      refine ⟨fun other hmem => h.known other (mem_cons_of_mem _ hmem), honce.2,
        fun other hmem => ?_, fun other hmem spelled hspelled => ?_⟩
      · have hne : other ≠ name := fun heq => honce.1 (heq ▸ hmem)
        simp [hne, h.fresh other (mem_cons_of_mem _ hmem)]
      · obtain ⟨hseen, hnames⟩ := h.alone other (mem_cons_of_mem _ hmem) spelled hspelled
        simp only [map_cons, mem_cons, not_or] at hnames
        simp [hseen, hnames]
    obtain ⟨seen, hseen⟩ := ih (r := with_seen (field r name value) (name :: r.seen)) hrest
    refine ⟨seen, ?_⟩
    rw [foldl_cons, hvisit, hseen, fields_seen]
    rfl

theorem finish_seen (r : Reading) (seen : List String) : finish (with_seen r seen) = finish r := rfl

/-! ## One segment of the members after the other -/

theorem fields_twin (r : Reading) (twin : Bool) (h : r.twin = false) :
    fields r (if twin then [("tw", .bool true)] else []) = { r with twin := twin } := by
  cases twin with
  | false =>
    show r = { r with twin := false }
    rw [← h]
  | true => rfl

theorem fields_unverified (r : Reading) (unverified : Bool) (h : r.unverified = false) :
    fields r (if unverified then [("u", .bool true)] else []) = { r with unverified := unverified } := by
  cases unverified with
  | false =>
    show r = { r with unverified := false }
    rw [← h]
  | true => rfl

/-- A member that holds the hashes, in either spelling. -/
def Spells (member : String × Value) (request_hashes : List UInt64) : Prop :=
  (member.1 = "b" ∨ member.1 = "h") ∧ ∀ r, field r member.1 member.2 = { r with request_hashes := request_hashes }

variable {member : String × Value}

theorem fields_hashes (r : Reading) {request_hashes : List UInt64}
    (h : r.request_hashes = []) (hspells : request_hashes ≠ [] → Spells member request_hashes) :
    fields r (if request_hashes ≠ [] then [member] else []) = { r with request_hashes := request_hashes } := by
  by_cases hne : request_hashes = []
  · rw [if_neg (not_not.mpr hne), hne, ← h]
    rfl
  · rw [if_pos hne]
    exact (hspells hne).2 r

def scalars_of_birth : Option ClaudeRequestBirth → List (String × UInt64)
  | some birth => [("bn", birth.inode), ("bd", birth.device), ("bi", birth.unix_seconds)]
  | none => []

def scalars_of_usage : Option (UInt64 × UInt64) → List (String × UInt64)
  | some (requests, tokens) => [("ut", tokens), ("ur", requests)]
  | none => []

def scalars_of (name : String) : Option UInt64 → List (String × UInt64)
  | some n => [(name, n)]
  | none => []

def more_scalars (r : Reading) (scalars : List (String × UInt64)) : Reading :=
  { r with scalars := scalars ++ r.scalars }

theorem fields_birth (r : Reading) (birth : Option ClaudeRequestBirth) :
    fields r (birth_members birth) =
      more_scalars r (scalars_of_birth birth) := by
  cases birth <;> rfl

theorem fields_retired (r : Reading) (retired : Option UInt64) :
    fields r (scalar_member "r" retired) =
      more_scalars r (scalars_of "r" retired) := by
  cases retired <;> rfl

theorem fields_usage (r : Reading) (usage : Option (UInt64 × UInt64)) :
    fields r (usage_members usage) = more_scalars r (scalars_of_usage usage) := by
  cases usage <;> rfl

theorem fields_modified (r : Reading) (modified : Option UInt64) :
    fields r (scalar_member "m" modified) =
      more_scalars r (scalars_of "m" modified) := by
  cases modified <;> rfl

/-- The fields of a record, read from its members. -/
def read_of (self : ClaudeRequestCensusRecord) : Reading where
  derivation := some self.derivation
  source_file_fingerprint := some self.source_file_fingerprint
  window := self.window
  shape := some self.shape
  twin := self.twin
  unverified := self.unverified
  request_hashes := self.request_hashes
  scalars := scalars_of "m" self.modified ++ scalars_of_usage self.old_path_usage ++
    scalars_of "r" self.retired ++ scalars_of_birth self.birth

theorem u16_of_u64 (n : UInt16) : u16_try_from n.toUInt64 = some n := by
  have hlt := n.toNat_lt
  unfold u16_try_from
  rw [UInt16.toNat_toUInt64, if_pos hlt, UInt16.ofNat_toNat]

theorem from_wire_wire (shape : ClaudeRequestCensusShape) :
    ClaudeRequestCensusShape.from_wire shape.wire = some shape := by
  cases shape <;> rfl

theorem fingerprint_fits (fingerprint : Digest) :
    (hex fingerprint.1).utf8ByteSize ≤ MAX_CLAUDE_REQUEST_CENSUS_SCALAR_BYTES := by
  have hlength : (as_bytes (hex fingerprint.1)).length = 64 := by
    simp [as_bytes_of_hex, length_flatMap, length_digits, fingerprint.2]
  have hsize : (hex fingerprint.1).utf8ByteSize = (as_bytes (hex fingerprint.1)).length := rfl
  rw [hsize, hlength]
  decide

theorem shape_fits (shape : ClaudeRequestCensusShape) :
    shape.wire.utf8ByteSize ≤ MAX_CLAUDE_REQUEST_CENSUS_SCALAR_BYTES := by
  cases shape <;> decide

theorem field_v (r : Reading) (derivation : UInt16) :
    field r "v" (of_u64 derivation.toUInt64) = { r with derivation := some derivation } := by
  rw [← u16_of_u64 derivation]
  rfl

theorem field_fp (r : Reading) (fingerprint : Digest) :
    field r "fp" (.string (hex fingerprint.1)) = { r with source_file_fingerprint := some fingerprint } := by
  have hvalue : Loose.deserialize (.string (hex fingerprint.1)) = .Str (hex fingerprint.1) :=
    if_pos (fingerprint_fits fingerprint)
  unfold field
  rw [hvalue, if_neg (by decide), if_neg (by decide)]
  simp only [decode_fingerprint_hex]

theorem field_w (r : Reading) (window : UInt64) : field r "w" (of_u64 window) = { r with window := window } :=
  rfl

theorem field_s (r : Reading) (shape : ClaudeRequestCensusShape) :
    field r "s" (.string shape.wire) = { r with shape := some shape } := by
  have hvalue : Loose.deserialize (.string shape.wire) = .Str shape.wire := if_pos (shape_fits shape)
  unfold field
  rw [hvalue, if_neg (by decide), if_neg (by decide)]
  simp only [from_wire_wire]

theorem fields_head (self : ClaudeRequestCensusRecord) :
    fields {} [("v", of_u64 self.derivation.toUInt64), ("fp", .string (hex self.source_file_fingerprint.1)),
      ("w", of_u64 self.window), ("s", .string self.shape.wire)] =
      { derivation := some self.derivation,
        source_file_fingerprint := some self.source_file_fingerprint, window := self.window,
        shape := some self.shape } := by
  simp only [fields, foldl_cons, foldl_nil, field_v, field_fp, field_w, field_s]

variable {self : ClaudeRequestCensusRecord}

theorem fields_members (h : self.request_hashes ≠ [] → Spells member self.request_hashes) :
    fields {} (self.members member) = read_of self := by
  unfold ClaudeRequestCensusRecord.members
  rw [fields_append, fields_append, fields_append, fields_append, fields_append, fields_append,
    fields_append, fields_head, fields_twin _ _ rfl, fields_unverified _ _ rfl, fields_hashes _ rfl h,
    fields_birth, fields_retired, fields_usage, fields_modified]
  simp [read_of, more_scalars]

/-- Each scalar is found under its name among all of them. -/
theorem lookups (birth : Option ClaudeRequestBirth) (retired modified : Option UInt64)
    (usage : Option (UInt64 × UInt64)) (scalars : List (String × UInt64))
    (h : scalars = scalars_of "m" modified ++ scalars_of_usage usage ++ scalars_of "r" retired ++
      scalars_of_birth birth) :
    group scalars ["bi", "bd", "bn"] =
        some (birth.map (fun birth => [birth.unix_seconds, birth.device, birth.inode])) ∧
      group scalars ["ur", "ut"] = some (usage.map (fun usage => [usage.1, usage.2])) ∧
      scalars.lookup "r" = retired ∧ scalars.lookup "m" = modified := by
  subst h
  cases birth <;> cases retired <;> cases usage <;> cases modified <;> exact ⟨rfl, rfl, rfl, rfl⟩

theorem finish_read_of
    (h : self.shape.admits self.request_hashes = true ∨ self.retired.isSome = true) :
    finish (read_of self) = some self := by
  obtain ⟨hbirth, husage, hretired, hmodified⟩ :=
    lookups self.birth self.retired self.modified self.old_path_usage (read_of self).scalars rfl
  have hsame_birth : (self.birth.map (fun birth => [birth.unix_seconds, birth.device, birth.inode])).bind
      birth_of = self.birth := by
    cases self.birth <;> rfl
  have hsame_usage : (self.old_path_usage.map (fun usage => [usage.1, usage.2])).bind usage_of =
      self.old_path_usage := by
    cases self.old_path_usage <;> rfl
  unfold finish
  rw [hbirth, husage, hretired, hmodified]
  simp only [read_of, Bool.false_eq_true, if_false, Option.bind_eq_bind, Option.bind_some]
  refine (if_pos h).trans ?_
  rw [hsame_birth, hsame_usage]

/-! ## The record's round trip -/

/-- The names that a record's members can have, with the one its hashes have. -/
def member_names (hashes : String) : List String :=
  ["v", "fp", "w", "s"] ++ ["tw"] ++ ["u"] ++ [hashes] ++ ["bi", "bd", "bn"] ++ ["r"] ++ ["ur", "ut"] ++
    ["m"]

theorem members_sublist (self : ClaudeRequestCensusRecord) (member : String × Value) :
    ((self.members member).map Prod.fst).Sublist (member_names member.1) := by
  have hflag : ∀ (flag : Bool) (name : String),
      ((if flag then [(name, Value.bool true)] else []).map Prod.fst).Sublist [name] := by
    intro flag name
    cases flag <;> simp
  have hhashes : ((if self.request_hashes ≠ [] then [member] else []).map Prod.fst).Sublist [member.1] := by
    split <;> simp
  have hbirth : ((birth_members self.birth).map Prod.fst).Sublist
      ["bi", "bd", "bn"] := by
    cases self.birth <;> simp [birth_members]
  have husage : ((usage_members self.old_path_usage).map Prod.fst).Sublist
      ["ur", "ut"] := by
    cases self.old_path_usage <;> simp [usage_members]
  have hscalar : ∀ name scalar,
      ((scalar_member name scalar).map Prod.fst).Sublist [name] := by
    intro name scalar
    cases scalar <;> simp [scalar_member]
  unfold ClaudeRequestCensusRecord.members member_names
  simp only [map_append]
  exact (((((((List.Sublist.refl _).append (hflag _ _)).append (hflag _ _)).append hhashes).append
    hbirth).append (hscalar _ _)).append husage).append (hscalar _ _)

theorem plain_members (self : ClaudeRequestCensusRecord)
    (h : member.1 = "b" ∨ member.1 = "h") : Plain [] ((self.members member).map Prod.fst) := by
  have hsub := members_sublist self member
  have hnames : (member_names member.1).Nodup ∧ (∀ name ∈ member_names member.1, name ∈ FIELDS) ∧
      ∀ name ∈ member_names member.1, ∀ other ∈ other_spelling name, other ∉ member_names member.1 := by
    rcases h with h | h <;> rw [h] <;> decide
  obtain ⟨honce, hknown, halone⟩ := hnames
  exact ⟨fun name hname => hknown name (hsub.subset hname), honce.sublist hsub, fun _ _ => not_mem_nil,
    fun name hname other hother => ⟨not_mem_nil,
      fun hmem => halone name (hsub.subset hname) other hother (hsub.subset hmem)⟩⟩

/-- A record that its readers accept: hashes in their order, as many as its shape admits. -/
structure Sound (record : ClaudeRequestCensusRecord) : Prop where
  ascending : Ascending record.request_hashes
  admitted : record.shape.admits record.request_hashes = true ∨ record.retired.isSome = true

theorem deserialize_members (h : Sound self) (hname : member.1 = "b" ∨ member.1 = "h")
    (hspells : self.request_hashes ≠ [] → Spells member self.request_hashes) :
    ClaudeRequestCensusRecord.deserialize (.object (self.members member)) = some self := by
  obtain ⟨seen, hvisit⟩ := foldl_visit (r := {}) (plain_members self hname)
  rw [ClaudeRequestCensusRecord.deserialize, hvisit, finish_seen, fields_members hspells,
    finish_read_of h.admitted]

theorem spells_base64 {hashes : List UInt64} (h : Ascending hashes) (hne : hashes ≠ []) :
    Spells ("b", .string (hash_base64 hashes)) hashes := by
  refine ⟨.inl rfl, fun r => ?_⟩
  have hread : (Value.string (hash_base64 hashes)).as_str.bind decode_base64_hashes = some hashes :=
    decode_hash_base64 hne h
  unfold field RecordVisitor.hashes
  rw [if_neg (by simp), if_pos rfl, hread]

theorem spells_hex {hashes : List UInt64} (h : Ascending hashes) (hne : hashes ≠ []) :
    Spells ("h", .string (hash_hex hashes)) hashes := by
  refine ⟨.inr rfl, fun r => ?_⟩
  have hread : (Value.string (hash_hex hashes)).as_str.bind decode_hashes = some hashes :=
    decode_hash_hex hne h
  unfold field RecordVisitor.hashes
  rw [if_pos rfl, hread]

/-- What a record is written as is read back as the record. -/
theorem deserialize_serialize (h : Sound self) :
    ClaudeRequestCensusRecord.deserialize self.serialize = some self :=
  deserialize_members h (.inl rfl) (fun hne => spells_base64 h.ascending hne)

theorem deserialize_serialize_older (h : Sound self) :
    ClaudeRequestCensusRecord.deserialize self.serialize_older = some self :=
  deserialize_members h (.inr rfl) (fun hne => spells_hex h.ascending hne)

end RecordVisitor

end ottto_service.claude_request_census
