import AmbientBundle.Glob.Match
import Mathlib.Data.List.Basic

/-!
# What patterns stand for

A token is matched by looking for a place after it from which a condition holds. This comes to the
same as cutting the bytes in two, where the front is one of those that the token stands for and the
condition holds of the back. So a pattern stands for the bytes of its tokens, one after the other.

* `Token.Takes`, `AllTake`, `OneTakes`: the bytes that a token, a sequence of tokens and a choice
  between sequences stand for.
* `Token.accepts_iff`, `allAccept_iff`: **the matcher finds exactly these bytes.**
* `isMatch_iff`: the paths that match a pattern.
* `allOpen`, `isMatch_eq_false_of_allOpen`: **patterns that match no absolute path.**
-/

namespace AmbientBundle.Glob

variable {k : List UInt8 → Bool} {bs : List UInt8}

/-! ### Conditions on what comes after -/

theorem afterBytes_iff {ps : List UInt8} :
    afterBytes k ps bs = true ↔ ∃ v, bs = ps ++ v ∧ k v = true := by
  induction ps generalizing bs with
  | nil => simp [afterBytes]
  | cons p ps ih =>
    cases bs with
    | nil => simp [afterBytes]
    | cons b bs =>
      rw [afterBytes, Bool.and_eq_true, beq_iff_eq, ih]
      constructor
      · rintro ⟨rfl, v, rfl, hk⟩
        exact ⟨v, rfl, hk⟩
      · rintro ⟨v, heq, hk⟩
        obtain ⟨rfl, rfl⟩ := List.cons.inj heq
        exact ⟨rfl, v, rfl, hk⟩

theorem starAccepts_iff :
    starAccepts k bs = true ↔ ∃ u v, bs = u ++ v ∧ slash ∉ u ∧ k v = true := by
  induction bs with
  | nil => simp [starAccepts]
  | cons b bs ih =>
    rw [starAccepts, Bool.or_eq_true, Bool.and_eq_true, bne_iff_ne, ih]
    constructor
    · rintro (hk | ⟨hb, u, v, rfl, hu, hk⟩)
      · exact ⟨[], b :: bs, rfl, List.not_mem_nil, hk⟩
      · exact ⟨b :: u, v, rfl, List.not_mem_cons_of_ne_of_not_mem hb.symm hu, hk⟩
    · rintro ⟨u, v, heq, hu, hk⟩
      cases u with
      | nil => exact .inl (heq ▸ hk)
      | cons c u =>
        obtain ⟨rfl, rfl⟩ := List.cons.inj heq
        rw [List.mem_cons, not_or] at hu
        exact .inr ⟨Ne.symm hu.1, u, v, rfl, hu.2, hk⟩

theorem afterSlash_iff :
    afterSlash k bs = true ↔ ∃ u v, bs = u ++ slash :: v ∧ k v = true := by
  induction bs with
  | nil => simp [afterSlash]
  | cons b bs ih =>
    rw [afterSlash, Bool.or_eq_true, Bool.and_eq_true, beq_iff_eq, ih]
    constructor
    · rintro (⟨rfl, hk⟩ | ⟨u, v, rfl, hk⟩)
      · exact ⟨[], bs, rfl, hk⟩
      · exact ⟨b :: u, v, rfl, hk⟩
    · rintro ⟨u, v, heq, hk⟩
      cases u with
      | nil =>
        obtain ⟨rfl, rfl⟩ := List.cons.inj heq
        exact .inl ⟨rfl, hk⟩
      | cons c u =>
        obtain ⟨rfl, rfl⟩ := List.cons.inj heq
        exact .inr ⟨u, v, rfl, hk⟩

theorem anyRest_iff : anyRest k bs = true ↔ ∃ u v, bs = u ++ v ∧ k v = true := by
  induction bs with
  | nil => simp [anyRest]
  | cons b bs ih =>
    rw [anyRest, Bool.or_eq_true, ih]
    constructor
    · rintro (hk | ⟨u, v, rfl, hk⟩)
      · exact ⟨[], b :: bs, rfl, hk⟩
      · exact ⟨b :: u, v, rfl, hk⟩
    · rintro ⟨u, v, heq, hk⟩
      cases u with
      | nil => exact .inl (heq ▸ hk)
      | cons c u =>
        obtain ⟨rfl, rfl⟩ := List.cons.inj heq
        exact .inr ⟨u, v, rfl, hk⟩

/-! ### The bytes of a pattern -/

mutual

/-- **The bytes that a token stands for.** -/
def Token.Takes : Token → List UInt8 → Prop
  | .literal c, u => u = String.utf8EncodeChar c
  | .any, u => ∃ b, b ≠ slash ∧ u = [b]
  | .star, u => slash ∉ u
  | .leadingDirs, u => u = [] ∨ ∃ v, u = v ++ [slash]
  | .middleDirs, u => u = [slash] ∨ ∃ v, u = slash :: (v ++ [slash])
  | .allBelow, u => ∃ v, u = slash :: v
  | .oneOf negated ranges, u => ∃ b, (ranges.any (inRange b) != negated) = true ∧ u = [b]
  | .alternates branches, u => if allVoid branches then u = [] else OneTakes branches u

/-- The bytes that tokens stand for, one after the other. -/
def AllTake : List Token → List UInt8 → Prop
  | [], u => u = []
  | token :: tokens, u => ∃ v w, u = v ++ w ∧ Token.Takes token v ∧ AllTake tokens w

/-- The bytes that one of the branches that are not empty stands for. -/
def OneTakes : List (List Token) → List UInt8 → Prop
  | [], _ => False
  | branch :: branches, u => branchVoid branch = false ∧ AllTake branch u ∨ OneTakes branches u

end

mutual

/-- **A token matches the bytes that it stands for.** -/
theorem Token.accepts_iff : ∀ (token : Token) (k : List UInt8 → Bool) (bs : List UInt8),
    token.accepts k bs = true ↔ ∃ u v, bs = u ++ v ∧ token.Takes u ∧ k v = true
  | .literal c, k, bs => by
    rw [Token.accepts, afterBytes_iff]
    simp [Token.Takes]
  | .any, k, bs => by
    cases bs with
    | nil => simp [Token.accepts, Token.Takes]
    | cons b bs =>
      simp only [Token.accepts, Token.Takes, Bool.and_eq_true, bne_iff_ne]
      constructor
      · rintro ⟨hb, hk⟩
        exact ⟨[b], bs, rfl, ⟨b, hb, rfl⟩, hk⟩
      · rintro ⟨u, v, heq, ⟨c, hc, rfl⟩, hk⟩
        obtain ⟨rfl, rfl⟩ := List.cons.inj heq
        exact ⟨hc, hk⟩
  | .star, k, bs => by
    rw [Token.accepts, starAccepts_iff]
    simp [Token.Takes]
  | .leadingDirs, k, bs => by
    simp only [Token.accepts, Token.Takes, Bool.or_eq_true, afterSlash_iff]
    constructor
    · rintro (hk | ⟨u, v, rfl, hk⟩)
      · exact ⟨[], bs, rfl, .inl rfl, hk⟩
      · exact ⟨u ++ [slash], v, by simp, .inr ⟨u, rfl⟩, hk⟩
    · rintro ⟨u, v, rfl, rfl | ⟨u, rfl⟩, hk⟩
      · exact .inl hk
      · exact .inr ⟨u, v, by simp, hk⟩
  | .middleDirs, k, bs => by
    cases bs with
    | nil => simp [Token.accepts, Token.Takes]
    | cons b bs =>
      simp only [Token.accepts, Token.Takes, Bool.and_eq_true, beq_iff_eq, Bool.or_eq_true,
        afterSlash_iff]
      constructor
      · rintro ⟨rfl, hk | ⟨u, v, rfl, hk⟩⟩
        · exact ⟨[slash], bs, rfl, .inl rfl, hk⟩
        · exact ⟨slash :: (u ++ [slash]), v, by simp, .inr ⟨u, rfl⟩, hk⟩
      · rintro ⟨u, v, heq, rfl | ⟨u, rfl⟩, hk⟩
        · obtain ⟨rfl, rfl⟩ := List.cons.inj heq
          exact ⟨rfl, .inl hk⟩
        · obtain ⟨rfl, rfl⟩ := List.cons.inj heq
          exact ⟨rfl, .inr ⟨u, v, by simp, hk⟩⟩
  | .allBelow, k, bs => by
    cases bs with
    | nil => simp [Token.accepts, Token.Takes]
    | cons b bs =>
      simp only [Token.accepts, Token.Takes, Bool.and_eq_true, beq_iff_eq, anyRest_iff]
      constructor
      · rintro ⟨rfl, u, v, rfl, hk⟩
        exact ⟨slash :: u, v, rfl, ⟨u, rfl⟩, hk⟩
      · rintro ⟨u, v, heq, ⟨u, rfl⟩, hk⟩
        obtain ⟨rfl, rfl⟩ := List.cons.inj heq
        exact ⟨rfl, u, v, rfl, hk⟩
  | .oneOf negated ranges, k, bs => by
    cases bs with
    | nil => simp [Token.accepts, Token.Takes]
    | cons b bs =>
      simp only [Token.accepts, Token.Takes, Bool.and_eq_true]
      constructor
      · rintro ⟨hb, hk⟩
        exact ⟨[b], bs, rfl, ⟨b, hb, rfl⟩, hk⟩
      · rintro ⟨u, v, heq, ⟨c, hc, rfl⟩, hk⟩
        obtain ⟨rfl, rfl⟩ := List.cons.inj heq
        exact ⟨hc, hk⟩
  | .alternates branches, k, bs => by
    rw [Token.accepts]
    simp only [Token.Takes]
    split
    · simp
    · exact anyAccepts_iff branches k bs

/-- **Tokens match the bytes that they stand for**, one after the other. -/
theorem allAccept_iff : ∀ (tokens : List Token) (k : List UInt8 → Bool) (bs : List UInt8),
    allAccept tokens k bs = true ↔ ∃ u v, bs = u ++ v ∧ AllTake tokens u ∧ k v = true
  | [], k, bs => by simp [allAccept, AllTake]
  | token :: tokens, k, bs => by
    rw [allAccept, Token.accepts_iff token]
    simp only [AllTake, allAccept_iff tokens k]
    constructor
    · rintro ⟨u, rest, rfl, hu, v, w, rfl, hv, hk⟩
      exact ⟨u ++ v, w, by simp, ⟨u, v, rfl, hu, hv⟩, hk⟩
    · rintro ⟨uv, w, rfl, ⟨u, v, rfl, hu, hv⟩, hk⟩
      exact ⟨u, v ++ w, by simp, hu, v, w, rfl, hv, hk⟩

theorem anyAccepts_iff : ∀ (branches : List (List Token)) (k : List UInt8 → Bool)
    (bs : List UInt8),
    anyAccepts branches k bs = true ↔ ∃ u v, bs = u ++ v ∧ OneTakes branches u ∧ k v = true
  | [], k, bs => by simp [anyAccepts, OneTakes]
  | branch :: branches, k, bs => by
    rw [anyAccepts, Bool.or_eq_true, Bool.and_eq_true, Bool.not_eq_true', allAccept_iff branch,
      anyAccepts_iff branches]
    simp only [OneTakes]
    constructor
    · rintro (⟨hvoid, u, v, rfl, hu, hk⟩ | ⟨u, v, rfl, hu, hk⟩)
      · exact ⟨u, v, rfl, .inl ⟨hvoid, hu⟩, hk⟩
      · exact ⟨u, v, rfl, .inr hu, hk⟩
    · rintro ⟨u, v, rfl, ⟨hvoid, hu⟩ | hu, hk⟩
      · exact .inl ⟨hvoid, u, v, rfl, hu, hk⟩
      · exact .inr ⟨u, v, rfl, hu, hk⟩

end

theorem matchesAll_iff {g : Glob} : g.matchesAll = true ↔ g.tokens = [.leadingDirs] := by
  unfold matchesAll
  split <;> simp_all

/-- **The paths that match a pattern.** -/
theorem isMatch_iff {g : Glob} {path : Path} :
    g.isMatch path = true ↔
      g.matchesAll = true ∨ AllTake g.tokens (bytes path.text.toList) := by
  rw [isMatch, Bool.or_eq_true, allAccept_iff]
  simp [List.isEmpty_iff]

theorem allTake_append {a b : List Token} {u : List UInt8} :
    AllTake (a ++ b) u ↔ ∃ v w, u = v ++ w ∧ AllTake a v ∧ AllTake b w := by
  induction a generalizing u with
  | nil => simp [AllTake]
  | cons token a ih =>
    simp only [List.cons_append, AllTake, ih]
    constructor
    · rintro ⟨v, _, rfl, hv, w, x, rfl, hw, hx⟩
      exact ⟨v ++ w, x, by simp, ⟨v, w, rfl, hv, hw⟩, hx⟩
    · rintro ⟨_, x, rfl, ⟨v, w, rfl, hv, hw⟩, hx⟩
      exact ⟨v, w ++ x, by simp, hv, w, x, rfl, hw, hx⟩

theorem allTake_singleton {token : Token} {u : List UInt8} :
    AllTake [token] u ↔ token.Takes u := by
  simp [AllTake]

/-! ### Bytes of texts -/

theorem bytes_append (a b : List Char) : bytes (a ++ b) = bytes a ++ bytes b :=
  List.flatMap_append

/-- A text is told by its bytes. -/
theorem bytes_injective {a b : List Char} (h : bytes a = bytes b) : a = b := by
  have hbytes : (String.ofList a).toByteArray = (String.ofList b).toByteArray := by
    rw [String.toByteArray_ofList, String.toByteArray_ofList, List.utf8Encode, List.utf8Encode]
    exact congrArg List.toByteArray h
  rw [← String.toList_ofList (l := a), String.toByteArray_inj.1 hbytes, String.toList_ofList]

/-- The slash stands in the bytes of no other character. -/
theorem slash_mem_utf8EncodeChar {c : Char} : slash ∈ String.utf8EncodeChar c ↔ c = '/' := by
  have hbyte : ∀ n, slash = UInt8.ofNat n ↔ 47 = n % 256 := by
    intro n
    rw [← UInt8.toNat_inj, UInt8.toNat_ofNat']
    rfl
  have hchar : c = '/' ↔ c.val.toNat = 47 := by
    rw [← Char.val_inj, ← UInt32.toNat_inj]
    rfl
  rw [hchar]
  unfold String.utf8EncodeChar
  dsimp only
  -- the bytes of longer encodings are all above those of characters of one byte
  split
  · simp only [List.mem_singleton, hbyte]
    omega
  · split
    · simp only [List.mem_cons, List.not_mem_nil, or_false, hbyte]
      omega
    · split
      · simp only [List.mem_cons, List.not_mem_nil, or_false, hbyte]
        omega
      · simp only [List.mem_cons, List.not_mem_nil, or_false, hbyte]
        omega

theorem slash_mem_bytes {cs : List Char} : slash ∈ bytes cs ↔ '/' ∈ cs := by
  simp [bytes, List.mem_flatMap, slash_mem_utf8EncodeChar]

/-! ### Patterns that match no absolute path -/

mutual

/-- Whether a token can start with a slash, if what comes after it can or cannot. -/
def Token.opens : Token → Bool → Bool
  | .literal c, _ => c == '/'
  | .any, _ => false
  | .star, after => after
  | .leadingDirs, _ => true
  | .middleDirs, _ => true
  | .allBelow, _ => true
  | .oneOf negated ranges, _ => ranges.any (inRange slash) != negated
  | .alternates branches, after => if allVoid branches then after else anyOpens branches after

/-- **Whether tokens can start with a slash.** -/
def allOpen : List Token → Bool → Bool
  | [], after => after
  | token :: tokens, after => Token.opens token (allOpen tokens after)

/-- Whether one of the branches that are not empty can start with a slash. -/
def anyOpens : List (List Token) → Bool → Bool
  | [], _ => false
  | branch :: branches, after =>
    (!branchVoid branch && allOpen branch after) || anyOpens branches after

end

/-- What holds of what comes after some bytes, if a slash can stand at its front only where this is
known. -/
def OpensAfter (after : Bool) (v : List UInt8) : Prop := v.head? = some slash → after = true

mutual

theorem Token.opens_of_takes : ∀ (token : Token) {after : Bool} {u v : List UInt8},
    token.Takes u → OpensAfter after v → OpensAfter (token.opens after) (u ++ v)
  | .literal c, after, u, v => by
    rintro rfl - hhead
    obtain ⟨b, more, hbytes⟩ := List.exists_cons_of_ne_nil (String.utf8EncodeChar_ne_nil (c := c))
    rw [hbytes, List.cons_append, List.head?_cons, Option.some.injEq] at hhead
    have hmem : slash ∈ String.utf8EncodeChar c := by rw [hbytes, hhead]; exact List.mem_cons_self
    rw [Token.opens, slash_mem_utf8EncodeChar.1 hmem]
    rfl
  | .any, after, u, v => by
    rintro ⟨b, hb, rfl⟩ - hhead
    exact absurd (Option.some.inj hhead) hb
  | .star, after, u, v => by
    intro hu hv hhead
    cases u with
    | nil => exact hv hhead
    | cons b u =>
      rw [List.cons_append, List.head?_cons, Option.some.injEq] at hhead
      exact absurd (hhead ▸ List.mem_cons_self) hu
  | .leadingDirs, after, u, v => fun _ _ _ => rfl
  | .middleDirs, after, u, v => fun _ _ _ => rfl
  | .allBelow, after, u, v => fun _ _ _ => rfl
  | .oneOf negated ranges, after, u, v => by
    rintro ⟨b, hb, rfl⟩ - hhead
    obtain rfl := Option.some.inj hhead
    exact hb
  | .alternates branches, after, u, v => by
    intro hu hv
    rw [Token.Takes] at hu
    rw [Token.opens]
    split at hu
    · next hvoid =>
      rw [hu, if_pos hvoid]
      exact hv
    · next hvoid =>
      rw [if_neg hvoid]
      exact anyOpens_of_oneTakes branches hu hv

theorem allOpen_of_allTake : ∀ (tokens : List Token) {after : Bool} {u v : List UInt8},
    AllTake tokens u → OpensAfter after v → OpensAfter (allOpen tokens after) (u ++ v)
  | [], after, u, v => by
    intro hu hv
    rw [AllTake] at hu
    rw [hu]
    exact hv
  | token :: tokens, after, u, v => by
    rintro ⟨front, back, rfl, hfront, hback⟩ hv
    rw [List.append_assoc]
    exact Token.opens_of_takes token hfront (allOpen_of_allTake tokens hback hv)

theorem anyOpens_of_oneTakes : ∀ (branches : List (List Token)) {after : Bool} {u v : List UInt8},
    OneTakes branches u → OpensAfter after v → OpensAfter (anyOpens branches after) (u ++ v)
  | [], after, u, v => fun hu => hu.elim
  | branch :: branches, after, u, v => by
    rintro (⟨hvoid, hu⟩ | hu) hv hhead
    · rw [anyOpens, hvoid, allOpen_of_allTake branch hu hv hhead]
      rfl
    · rw [anyOpens, anyOpens_of_oneTakes branches hu hv hhead, Bool.or_true]

end

/-- **A pattern that cannot start with a slash matches no absolute path.** -/
theorem isMatch_eq_false_of_allOpen {g : Glob} (h : allOpen g.tokens false = false) {path : Path}
    (hpath : path.isAbsolute = true) : g.isMatch path = false := by
  rw [Bool.eq_false_iff]
  intro hmatch
  obtain ⟨cs, hcs⟩ := List.head?_eq_some_iff.1 (beq_iff_eq.1 hpath)
  rcases isMatch_iff.1 hmatch with hall | htake
  · -- a double star alone can start with anything
    unfold matchesAll at hall
    split at hall
    · next htokens =>
      rw [htokens] at h
      cases h
    · cases hall
  · have hopens := allOpen_of_allTake g.tokens htake (fun hnil => nomatch hnil :
      OpensAfter false [])
    rw [List.append_nil, hcs] at hopens
    rw [hopens rfl] at h
    cases h

end AmbientBundle.Glob
