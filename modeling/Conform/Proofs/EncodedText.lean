import Conform.Evaluation.Strings
import Mathlib

/-!
# Conform.Proofs.EncodedText

Bytes as text, by the grammar and by counting. The grammar knows whole groups of four letters, the
last of which may be filled up:

```
bytes        24 bits      letters    text
77 97 110    whole        4          TWFu
77 97        4 too few    3          TWE=
77           8 too few    2          TQ==
```

The test counts the signs of filling at the end and the characters in all. That it accepts what the
grammar knows and nothing else is the first statement here (`isEncoded_iff_grouped`); it accepts
what `encode` writes, which decoding gives back, and the number of decoded bytes can be read off the
text. A text that is refused is reported as badly encoded and not also as a bad document.
-/

namespace Conform

namespace Base64

/-! ## The alphabet -/

/-- The letters, each at the place of its value. -/
def alphabet : List Char := [
  'A', 'B', 'C', 'D', 'E', 'F', 'G', 'H', 'I', 'J', 'K', 'L', 'M', 'N', 'O', 'P',
  'Q', 'R', 'S', 'T', 'U', 'V', 'W', 'X', 'Y', 'Z', 'a', 'b', 'c', 'd', 'e', 'f',
  'g', 'h', 'i', 'j', 'k', 'l', 'm', 'n', 'o', 'p', 'q', 'r', 's', 't', 'u', 'v',
  'w', 'x', 'y', 'z', '0', '1', '2', '3', '4', '5', '6', '7', '8', '9', '+', '/']

/-- The letter of a value below sixty-four. -/
def letter (n : Nat) : Char := alphabet.getD n 'A'

theorem sextet?_letter {n : Nat} (h : n < 64) : sextet? (letter n) = some n := by
  have hall : ∀ i : Fin 64, sextet? (letter i) = some i.val := by decide +kernel
  exact hall ⟨n, h⟩

theorem letter_mem {n : Nat} (h : n < 64) : letter n ∈ alphabet := by
  have hall : ∀ i : Fin 64, letter i ∈ alphabet := by decide +kernel
  exact hall ⟨n, h⟩

/-- A character with a value is the letter of that value. -/
theorem letter_of_sextet? {c : Char} {n : Nat} (h : sextet? c = some n) :
    n < 64 ∧ letter n = c := by
  have hbasic : c.toNat < 128 := by
    have hle : ∀ d : Char, c ≤ d → c.toNat ≤ d.toNat := fun d hd => UInt32.le_iff_toNat_le.mp hd
    unfold sextet? at h
    split_ifs at h with hupper hlower hdigit hplus hslash
    · exact Nat.lt_of_le_of_lt (hle 'Z' hupper.2) (by decide)
    · exact Nat.lt_of_le_of_lt (hle 'z' hlower.2) (by decide)
    · exact Nat.lt_of_le_of_lt (hle '9' hdigit.2) (by decide)
    · rw [hplus]
      decide
    · rw [hslash]
      decide
  have hall : ∀ k : Fin 128, ∀ m, sextet? (Char.ofNat k) = some m →
      m < 64 ∧ letter m = Char.ofNat k := by
    intro k m hm
    have hk : ∀ k : Fin 128, (sextet? (Char.ofNat k)).all fun m =>
      decide (m < 64 ∧ letter m = Char.ofNat k) := by
      decide +kernel
    simpa [hm] using hk k
  simpa [h] using hall ⟨c.toNat, hbasic⟩ n

theorem isLetter_iff {c : Char} : isLetter c = true ↔ c ∈ alphabet := by
  constructor
  · intro h
    obtain ⟨n, hn⟩ := Option.isSome_iff_exists.mp h
    obtain ⟨hlt, rfl⟩ := letter_of_sextet? hn
    exact letter_mem hlt
  · intro h
    obtain ⟨n, hn, rfl⟩ := List.mem_iff_getElem.mp h
    have hletter : letter n = alphabet[n] := List.getD_eq_getElem alphabet 'A' hn
    rw [isLetter, ← hletter, sextet?_letter hn, Option.isSome_some]

theorem filling_not_mem : '=' ∉ alphabet := by
  rw [← isLetter_iff]
  decide

/-! ## The grammar -/

/-- Groups of four letters, of which the last may end in one sign of filling or in two. -/
inductive Grouped : List Char → Prop where
  | nothing : Grouped []
  | four {a b c d : Char} {cs : List Char} (ha : a ∈ alphabet) (hb : b ∈ alphabet)
      (hc : c ∈ alphabet) (hd : d ∈ alphabet) (h : Grouped cs) : Grouped (a :: b :: c :: d :: cs)
  | three {a b c : Char} (ha : a ∈ alphabet) (hb : b ∈ alphabet) (hc : c ∈ alphabet) :
      Grouped [a, b, c, '=']
  | two {a b : Char} (ha : a ∈ alphabet) (hb : b ∈ alphabet) : Grouped [a, b, '=', '=']

/-- Letters with up to two signs of filling behind them, in whole groups. -/
structure Filled (letters : List Char) (filling : Nat) : Prop where
  ofLetters : ∀ c ∈ letters, c ∈ alphabet
  filling_le : filling ≤ 2
  whole : (letters.length + filling) % 4 = 0

/-- Group by group, as long as there are four letters. -/
theorem Filled.grouped : ∀ {letters : List Char} {filling : Nat}, Filled letters filling →
    Grouped (letters ++ List.replicate filling '=')
  | [], filling, ⟨_, hle, hwhole⟩ => by
    obtain rfl : filling = 0 := by
      rw [List.length_nil] at hwhole
      omega
    exact .nothing
  | [a], filling, ⟨_, hle, hwhole⟩ => by
    rw [List.length_singleton] at hwhole
    omega
  | [a, b], filling, ⟨hletters, hle, hwhole⟩ => by
    obtain rfl : filling = 2 := by
      simp only [List.length_cons, List.length_nil] at hwhole
      omega
    exact .two (hletters a (by simp)) (hletters b (by simp))
  | [a, b, c], filling, ⟨hletters, hle, hwhole⟩ => by
    obtain rfl : filling = 1 := by
      simp only [List.length_cons, List.length_nil] at hwhole
      omega
    exact .three (hletters a (by simp)) (hletters b (by simp)) (hletters c (by simp))
  | a :: b :: c :: d :: letters, filling, ⟨hletters, hle, hwhole⟩ => by
    have hrest : Filled letters filling := by
      refine ⟨fun x hx => hletters x (by simp [hx]), hle, ?_⟩
      simp only [List.length_cons] at hwhole
      omega
    exact .four (hletters a (by simp)) (hletters b (by simp)) (hletters c (by simp))
      (hletters d (by simp)) hrest.grouped

theorem Grouped.exists_filled {cs : List Char} (h : Grouped cs) :
    ∃ letters filling, Filled letters filling ∧ cs = letters ++ List.replicate filling '=' := by
  induction h with
  | nothing => exact ⟨[], 0, ⟨by simp, by omega, by simp⟩, rfl⟩
  | @four a b c d cs ha hb hc hd _ ih =>
    obtain ⟨letters, filling, ⟨hletters, hle, hwhole⟩, rfl⟩ := ih
    refine ⟨a :: b :: c :: d :: letters, filling, ⟨?_, hle, ?_⟩, rfl⟩
    · simp only [List.forall_mem_cons]
      exact ⟨ha, hb, hc, hd, hletters⟩
    · simp only [List.length_cons]
      omega
  | @three a b c ha hb hc => exact ⟨[a, b, c], 1, ⟨by simp [ha, hb, hc], by omega, by simp⟩, rfl⟩
  | @two a b ha hb => exact ⟨[a, b], 2, ⟨by simp [ha, hb], by omega, by simp⟩, rfl⟩

/-! ## Counting -/

/-- What is left out of the body is filling behind it. -/
theorem exists_eq_body_append (cs : List Char) :
    ∃ filling, cs = body cs ++ List.replicate filling '=' := by
  have hfilling : ∀ c ∈ cs.reverse.takeWhile (· == '='), c = '=' := fun c hc => by
    simpa using List.mem_takeWhile_imp hc
  refine ⟨(cs.reverse.takeWhile (· == '=')).length, ?_⟩
  calc cs = (cs.reverse.takeWhile (· == '=') ++ cs.reverse.dropWhile (· == '=')).reverse := by
        rw [List.takeWhile_append_dropWhile, List.reverse_reverse]
    _ = body cs ++ (cs.reverse.takeWhile (· == '=')).reverse := by
        rw [List.reverse_append, body]
    _ = _ := by
        rw [List.eq_replicate_of_mem hfilling, List.reverse_replicate, List.length_replicate]

theorem body_append {letters : List Char} (h : ∀ c ∈ letters, c ∈ alphabet) (filling : Nat) :
    body (letters ++ List.replicate filling '=') = letters := by
  have hletters : letters.reverse.dropWhile (· == '=') = letters.reverse := by
    refine List.dropWhile_eq_self_iff.mpr fun hpos => ?_
    have hmem : letters.reverse[0] ∈ alphabet := h _ (List.mem_reverse.mp (List.getElem_mem hpos))
    intro heq
    rw [beq_iff_eq] at heq
    exact filling_not_mem (heq ▸ hmem)
  rw [body, List.reverse_append, List.reverse_replicate, List.dropWhile_append_of_pos,
    hletters, List.reverse_reverse]
  simp

/-- Counting decides the grammar. -/
theorem isEncoded_iff_grouped {cs : List Char} : isEncoded cs = true ↔ Grouped cs := by
  constructor
  · intro h
    obtain ⟨filling, hcs⟩ := exists_eq_body_append cs
    have hlength := congrArg List.length hcs
    rw [List.length_append, List.length_replicate] at hlength
    simp only [isEncoded, Bool.and_eq_true, decide_eq_true_eq, beq_iff_eq, List.all_eq_true,
      isLetter_iff] at h
    obtain ⟨⟨hle, hwhole⟩, hletters⟩ := h
    have hfilled : Filled (body cs) filling := ⟨hletters, by omega, by omega⟩
    exact hcs ▸ hfilled.grouped
  · intro h
    obtain ⟨letters, filling, ⟨hletters, hle, hwhole⟩, rfl⟩ := h.exists_filled
    simp only [isEncoded, body_append hletters, List.length_append, List.length_replicate,
      Bool.and_eq_true, decide_eq_true_eq, beq_iff_eq, List.all_eq_true, isLetter_iff]
    exact ⟨⟨by omega, hwhole⟩, hletters⟩

/-! ## Bytes and sextets -/

/-- The sextets of a row of bytes, four for three. -/
def sextetsOf : List Nat → List Nat
  | a :: b :: c :: rest =>
    (a / 4) :: (a % 4 * 16 + b / 16) :: (b % 16 * 4 + c / 64) :: (c % 64) :: sextetsOf rest
  | [a, b] => [a / 4, a % 4 * 16 + b / 16, b % 16 * 4]
  | [a] => [a / 4, a % 4 * 16]
  | [] => []

/-- The text that carries a row of bytes, filled up to whole groups. -/
def encode (bytes : List Nat) : List Char :=
  (sextetsOf bytes).map letter ++ List.replicate ((3 - bytes.length % 3) % 3) '='

theorem length_sextetsOf (bytes : List Nat) :
    (sextetsOf bytes).length = (4 * bytes.length + 2) / 3 := by
  fun_induction sextetsOf bytes with
  | case1 a b c rest ih =>
    simp only [List.length_cons, ih]
    omega
  | _ => simp

theorem lt_of_mem_sextetsOf {bytes : List Nat} (h : ∀ b ∈ bytes, b < 256) :
    ∀ n ∈ sextetsOf bytes, n < 64 := by
  fun_induction sextetsOf bytes with
  | case1 a b c rest ih =>
    simp only [List.forall_mem_cons] at h ⊢
    obtain ⟨ha, hb, hc, hrest⟩ := h
    exact ⟨by omega, by omega, by omega, by omega, ih hrest⟩
  | case2 a b =>
    simp at h ⊢
    omega
  | case3 a =>
    simp at h ⊢
    omega
  | case4 => simp

/-- The bytes come back from their sextets. -/
theorem bytesOf_sextetsOf {bytes : List Nat} (h : ∀ b ∈ bytes, b < 256) :
    bytesOf (sextetsOf bytes) = bytes := by
  fun_induction sextetsOf bytes with
  | case1 a b c rest ih =>
    simp only [List.forall_mem_cons] at h
    obtain ⟨ha, hb, hc, hrest⟩ := h
    have hfirst : a / 4 * 4 + (a % 4 * 16 + b / 16) / 16 = a := by omega
    have hsecond : (a % 4 * 16 + b / 16) % 16 * 16 + (b % 16 * 4 + c / 64) / 4 = b := by omega
    have hthird : (b % 16 * 4 + c / 64) % 4 * 64 + c % 64 = c := by omega
    rw [bytesOf, ih hrest, hfirst, hsecond, hthird]
  | case2 a b =>
    simp [bytesOf] at h ⊢
    omega
  | case3 a =>
    simp [bytesOf] at h ⊢
    omega
  | case4 => simp [bytesOf]

theorem length_bytesOf : ∀ ns : List Nat, (bytesOf ns).length = 3 * ns.length / 4
  | [] => by simp [bytesOf]
  | [_] => by simp [bytesOf]
  | [_, _] => by simp [bytesOf]
  | [_, _, _] => by simp [bytesOf]
  | _ :: _ :: _ :: _ :: rest => by
    simp only [bytesOf, List.length_cons, length_bytesOf rest]
    omega

theorem lt_of_mem_bytesOf : ∀ {ns : List Nat}, (∀ n ∈ ns, n < 64) → ∀ b ∈ bytesOf ns, b < 256
  | [], _ => by simp [bytesOf]
  | [_], _ => by simp [bytesOf]
  | [_, _], h => by
    simp [bytesOf] at h ⊢
    omega
  | [_, _, _], h => by
    simp [bytesOf] at h ⊢
    omega
  | _ :: _ :: _ :: _ :: rest, h => by
    simp only [bytesOf, List.forall_mem_cons] at h ⊢
    obtain ⟨ha, hb, hc, hd, hrest⟩ := h
    exact ⟨by omega, by omega, by omega, lt_of_mem_bytesOf hrest⟩

/-! ## Decoding -/

theorem exists_sextets {letters : List Char} (h : ∀ c ∈ letters, c ∈ alphabet) :
    ∃ ns : List Nat, (∀ n ∈ ns, n < 64) ∧ ns.map letter = letters := by
  induction letters with
  | nil => exact ⟨[], by simp, rfl⟩
  | cons c letters ih =>
    rw [List.forall_mem_cons] at h
    obtain ⟨ns, hns, rfl⟩ := ih h.2
    obtain ⟨n, hn⟩ := Option.isSome_iff_exists.mp (isLetter_iff.mpr h.1)
    obtain ⟨hlt, rfl⟩ := letter_of_sextet? hn
    exact ⟨n :: ns, List.forall_mem_cons.mpr ⟨hlt, hns⟩, rfl⟩

theorem letters_mem {ns : List Nat} (h : ∀ n ∈ ns, n < 64) : ∀ c ∈ ns.map letter, c ∈ alphabet := by
  intro c hc
  obtain ⟨n, hn, rfl⟩ := List.mem_map.mp hc
  exact letter_mem (h n hn)

/-- Decoding reads the sextets of the letters, whatever the filling. -/
theorem decode_append {ns : List Nat} (h : ∀ n ∈ ns, n < 64) (filling : Nat) :
    decode (ns.map letter ++ List.replicate filling '=') = bytesOf ns := by
  have hsextets : (ns.map letter).filterMap sextet? = ns := by
    have hsome : ∀ n ∈ ns, (sextet? ∘ letter) n = some n := fun n hn => sextet?_letter (h n hn)
    rw [List.filterMap_map, List.filterMap_congr hsome, List.filterMap_some]
  rw [decode, body_append (letters_mem h), hsextets]

theorem filled_encode {bytes : List Nat} (h : ∀ b ∈ bytes, b < 256) :
    Filled ((sextetsOf bytes).map letter) ((3 - bytes.length % 3) % 3) := by
  refine ⟨letters_mem (lt_of_mem_sextetsOf h), by omega, ?_⟩
  rw [List.length_map, length_sextetsOf]
  have hmod : bytes.length % 3 < 3 := Nat.mod_lt _ (by omega)
  interval_cases hrest : bytes.length % 3 <;> omega

theorem isEncoded_encode {bytes : List Nat} (h : ∀ b ∈ bytes, b < 256) :
    isEncoded (encode bytes) = true :=
  isEncoded_iff_grouped.mpr (filled_encode h).grouped

theorem decode_encode {bytes : List Nat} (h : ∀ b ∈ bytes, b < 256) :
    decode (encode bytes) = bytes := by
  rw [encode, decode_append (lt_of_mem_sextetsOf h), bytesOf_sextetsOf h]

/-- What an accepted text decodes to: bytes, three for each group, less the filling. -/
theorem decode_of_isEncoded {cs : List Char} (h : isEncoded cs = true) :
    (decode cs).length = 3 * cs.length / 4 - cs.count '=' ∧ ∀ b ∈ decode cs, b < 256 := by
  obtain ⟨letters, filling, ⟨hletters, hle, hwhole⟩, rfl⟩ :=
    (isEncoded_iff_grouped.mp h).exists_filled
  have hcount : letters.count '=' = 0 :=
    List.count_eq_zero.mpr fun hmem => filling_not_mem (hletters _ hmem)
  obtain ⟨ns, hns, rfl⟩ := exists_sextets hletters
  rw [decode_append hns]
  refine ⟨?_, lt_of_mem_bytesOf hns⟩
  rw [length_bytesOf, List.count_append, hcount, List.count_replicate_self, List.length_append,
    List.length_map, List.length_replicate]
  rw [List.length_map] at hwhole
  omega

end Base64

namespace Evaluation

theorem length_found_reportUnless (ok : Bool) (path : String) (code : Code) (message : String)
    (value constraint : Json) :
    (reportUnless ok (violation path code message value constraint)).found.length ≤ 1 := by
  cases ok
  · exact Nat.le_refl 1
  · exact Nat.zero_le 1

theorem length_found_contentEncodingRule (k : StringKeywords) (s path : String) :
    (contentEncodingRule k s path).found.length ≤ 1 := by
  unfold contentEncodingRule
  split
  · exact length_found_reportUnless ..
  · exact Nat.zero_le 1

section

variable [Host]

/-- Where the text is no document there is one find, and where the stack gives out on it there is
none. -/
theorem length_found_contentMediaTypeRule (k : StringKeywords) (s path : String) :
    (contentMediaTypeRule k s path).found.length ≤ 1 := by
  unfold contentMediaTypeRule
  split
  · split
    · exact Nat.zero_le 1
    · cases isDocument (declaresBase64 k) s with
      | error f => exact Nat.zero_le 1
      | ok isDocument => exact length_found_reportUnless ..
  · exact Nat.zero_le 1

/-- Where the encoding is broken the rule for documents is silent, and elsewhere the rule for
encodings is. -/
theorem length_found_content (k : StringKeywords) (s path : String) :
    ((contentEncodingRule k s path).andThen
      fun _ => contentMediaTypeRule k s path).found.length ≤ 1 := by
  cases hbroken : declaresBase64 k && !Base64.isEncoded s.toList with
  | true =>
    have hsilent : contentMediaTypeRule k s path = .done := by
      unfold contentMediaTypeRule
      rw [if_pos hbroken]
      split <;> rfl
    rw [hsilent, Trace.andThen_done]
    exact length_found_contentEncodingRule k s path
  | false =>
    have hsilent : contentEncodingRule k s path = .done := by
      unfold contentEncodingRule
      split
      · next hdeclared =>
        rw [hdeclared, Bool.true_and, Bool.not_eq_false'] at hbroken
        rw [hbroken, reportUnless, if_pos rfl]
      · rfl
    rw [hsilent, Trace.done_andThen]
    exact length_found_contentMediaTypeRule k s path

/-- The test of encodings accepts the grammar and nothing else. So it accepts what is encoded from
bytes, which come back from it; an accepted text has three bytes for each group less one for each
sign of filling; and the two rules for content find at most one thing together, also where the
second is stopped. -/
theorem encoding_exact (s : String) (bytes : List Nat) (hbytes : ∀ b ∈ bytes, b < 256)
    (k : StringKeywords) (path : String) :
    (Base64.isEncoded s.toList = true ↔ Base64.Grouped s.toList) ∧
      Base64.isEncoded (Base64.encode bytes) = true ∧
      Base64.decode (Base64.encode bytes) = bytes ∧
      (Base64.isEncoded s.toList = true →
        (Base64.decode s.toList).length = 3 * s.toList.length / 4 - s.toList.count '=' ∧
          ∀ b ∈ Base64.decode s.toList, b < 256) ∧
      ((contentEncodingRule k s path).andThen
        fun _ => contentMediaTypeRule k s path).found.length ≤ 1 :=
  ⟨Base64.isEncoded_iff_grouped, Base64.isEncoded_encode hbytes, Base64.decode_encode hbytes,
    Base64.decode_of_isEncoded, length_found_content k s path⟩

end

open Sample in
/-- Two bytes take three letters and a sign of filling, and that text is reported once where a
document is wanted. -/
theorem two_bytes_encoded :
    let k : StringKeywords :=
      { contentEncoding := some (.str "base64")
        contentMediaType := some (.str "application/json") }
    Base64.Grouped "TWE=".toList ∧ Base64.encode [77, 97] = "TWE=".toList ∧
      Base64.isEncoded (Base64.encode [77, 97]) = true ∧
      Base64.decode (Base64.encode [77, 97]) = [77, 97] ∧
      (Base64.decode "TWE=".toList).length = 2 ∧
      ((contentEncodingRule k "TWE=" "").andThen
        fun _ => contentMediaTypeRule k "TWE=" "").found.length ≤ 1 := by
  intro k
  obtain ⟨hgrammar, hencoded, hdecoded, hlength, honce⟩ :=
    encoding_exact "TWE=" [77, 97] (by simp) k ""
  have htext : Base64.encode [77, 97] = "TWE=".toList := by
    decide
  have haccepted : Base64.isEncoded "TWE=".toList = true := htext ▸ hencoded
  exact ⟨hgrammar.mp haccepted, htext, hencoded, hdecoded, (hlength haccepted).1, honce⟩

end Evaluation

end Conform
