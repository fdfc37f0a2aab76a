import AmbientBundle.Proofs.Lexing
import AmbientBundle.Proofs.MainAlias
import AmbientBundle.Proofs.Rewriting
import AmbientBundle.Proofs.Ways

/-!
# Identifiers as string literals

A bundle holds identifiers in single quotes: at the head of each block, in the lines of the alias,
and in the place of references. They are written as they are, without escapes.

* `firstLiteral?`: the first literal in a text, as a reader of the language sees it.
* `Quotation.readsBack_iff`: **an identifier in quotes reads back exactly if it is plain**.
* `IsPlain.ofPath`, `IsPlain.resolve`: identifiers are plain if what they are made from is.
* `written_literals_read_iff`: **which literals of a bundle denote what they were written for.**
-/

namespace AmbientBundle

open Text Source

/-! ### Reading literals -/

/-- **The first literal in single quotes of a text**: what it denotes, and the text after its
closing quote. There is none if the first quote opens no literal that is closed. -/
def firstLiteral? (text : String) : Option (String × String) :=
  match splitFirst? ['\''] text.toList with
  | none => none
  | some (_, body) =>
    match readStringBody '\'' (body.length + 1) body with
    | some (codes, '\'' :: rest) =>
      (joinSurrogates codes).map fun value => (String.ofList value, String.ofList rest)
    | _ => none

/-- The characters that do not stand for themselves in a literal. -/
def literalMarks : List Char := ['\'', '\\', '\n', '\r']

/-- **A plain text** stands for itself between quotes. -/
def IsPlain (s : String) : Prop := ∀ c ∈ s.toList, c ∉ literalMarks

instance (s : String) : Decidable (IsPlain s) :=
  List.decidableBAll (fun c => c ∉ literalMarks) s.toList

/-- An escape is at least one character after its backslash. -/
theorem readEscape_length {code : Option Nat} {cs rest : List Char}
    (h : readEscape cs = some (code, rest)) : rest.length < cs.length := by
  unfold readEscape at h
  split at h
  case h_1 => cases h
  case h_8 => cases h; simp only [List.length_cons]; omega
  case h_9 cs =>
    obtain ⟨⟨v, left⟩, hleft, heq⟩ := Option.map_eq_some_iff.1 h
    cases heq
    exact Nat.lt_succ_of_le (takeHex_suffix hleft).length_le
  case h_10 cs =>
    obtain ⟨⟨v, left⟩, hleft, heq⟩ := Option.map_eq_some_iff.1 h
    cases heq
    exact Nat.lt_succ_of_le (takeCodePoint_suffix hleft).length_le
  case h_11 c cs _ _ _ _ _ _ _ _ _ =>
    split at h
    · cases h; exact Nat.lt_succ_self _
    · split at h
      · next hoctal =>
        -- the first digit of an octal escape is its own
        have hdigits : 0 < (octalEscape (c :: cs)).length := by
          unfold octalEscape
          simp only [List.takeWhile_cons, hoctal, if_true]
          split <;> simp
        cases h
        rw [List.length_drop, List.length_cons]
        omega
      · cases h; exact Nat.lt_succ_self _
  all_goals cases h; exact Nat.lt_succ_self _

/-- **What a literal denotes is not longer than what is read**, and shorter if anything in it does
not stand for itself. -/
theorem readStringBody_length {n : Nat} {cs rest : List Char} {codes : List Nat}
    (h : readStringBody '\'' n cs = some (codes, rest)) :
    ∃ read, cs = read ++ rest ∧ codes.length ≤ read.length ∧
      (codes.length = read.length → ∀ c ∈ read, c ∉ literalMarks) := by
  fun_induction readStringBody '\'' n cs generalizing codes with
  | case1 cs => cases h; exact ⟨[], rfl, Nat.le_refl _, by simp⟩
  | case2 => cases h; exact ⟨[], rfl, Nat.le_refl _, by simp⟩
  | case3 => cases h
  | case4 n cs code left hescape ih =>
    obtain ⟨⟨codes, left⟩, hleft, heq⟩ := Option.map_eq_some_iff.1 h
    cases heq
    obtain ⟨read, rfl, hlen, -⟩ := ih hleft
    obtain ⟨escape, rfl⟩ := readEscape_suffix hescape
    -- an escape denotes at most one character, and takes two at least
    have htaken := readEscape_length hescape
    have hcode : code.toList.length ≤ 1 := by cases code <;> simp
    refine ⟨'\\' :: escape ++ read, by simp, ?_, ?_⟩
    · simp only [List.length_append, List.length_cons] at htaken ⊢
      omega
    · intro heq
      simp only [List.length_append, List.length_cons] at htaken heq
      omega
  | case5 n c cs => cases h; exact ⟨[], rfl, Nat.le_refl _, by simp⟩
  | case6 n c cs hbackslash hmark ih =>
    obtain ⟨⟨codes, left⟩, hleft, heq⟩ := Option.map_eq_some_iff.1 h
    cases heq
    obtain ⟨read, rfl, hlen, hplain⟩ := ih hleft
    refine ⟨c :: read, rfl, Nat.succ_le_succ hlen, ?_⟩
    intro heq d hd
    rcases List.mem_cons.1 hd with rfl | hd
    · simp only [Bool.or_eq_true, beq_iff_eq, not_or] at hmark
      simp only [literalMarks, List.mem_cons, List.not_mem_nil, or_false, not_or]
      exact ⟨hmark.1.1, fun h => hbackslash h, hmark.1.2, hmark.2⟩
    · exact hplain (Nat.succ.inj heq) d hd

theorem joinSurrogates_length {codes : List Nat} {value : List Char}
    (h : joinSurrogates codes = some value) : value.length ≤ codes.length := by
  fun_induction joinSurrogates codes generalizing value with
  | case1 => cases h; exact Nat.le_refl _
  | case2 h l rest _ _ ih =>
    obtain ⟨value, hvalue, rfl⟩ := Option.map_eq_some_iff.1 h
    have := ih hvalue
    simp only [List.length_cons]
    omega
  | case3 => cases h
  | case4 => cases h
  | case5 h l rest _ _ ih =>
    obtain ⟨value, hvalue, rfl⟩ := Option.map_eq_some_iff.1 h
    exact Nat.succ_le_succ (ih hvalue)
  | case6 => cases h
  | case7 => cases h; exact Nat.le_refl _

/-- No character is a surrogate. -/
theorem joinSurrogates_chars (cs : List Char) : joinSurrogates (cs.map Char.toNat) = some cs := by
  have hvalid : ∀ c : Char, (0xd800 ≤ c.toNat && c.toNat < 0xdc00) = false ∧
      (0xdc00 ≤ c.toNat && c.toNat < 0xe000) = false ∧
      (0xd800 ≤ c.toNat && c.toNat < 0xe000) = false := by
    intro c
    have hc : c.toNat < 0xd800 ∨ 0xdfff < c.toNat ∧ c.toNat < 0x110000 := c.valid
    simp only [Bool.and_eq_false_iff, decide_eq_false_iff_not]
    omega
  induction cs with
  | nil => rfl
  | cons c cs ih =>
    obtain ⟨hhigh, hlow, hall⟩ := hvalid c
    cases cs with
    | nil => simp [joinSurrogates, hall]
    | cons d cs =>
      rw [List.map_cons] at ih
      simp only [List.map_cons, joinSurrogates, hhigh, hlow, ih]
      simp

/-- Plain characters are read up to the quote after them. -/
theorem readStringBody_plain {cs : List Char} (h : ∀ c ∈ cs, c ∉ literalMarks) (after : List Char)
    {n : Nat} (hn : cs.length < n) :
    readStringBody '\'' n (cs ++ '\'' :: after) = some (cs.map Char.toNat, '\'' :: after) := by
  induction cs generalizing n with
  | nil =>
    obtain ⟨n, rfl⟩ := Nat.exists_eq_add_of_lt hn
    rfl
  | cons c cs ih =>
    obtain ⟨n, rfl⟩ : ∃ m, n = m + 1 := ⟨n - 1, by omega⟩
    have hc := h c List.mem_cons_self
    simp only [literalMarks, List.mem_cons, List.not_mem_nil, or_false, not_or] at hc
    have hrest := ih (fun d hd => h d (List.mem_cons_of_mem _ hd)) (Nat.lt_of_succ_lt_succ hn)
    rw [List.cons_append, readStringBody.eq_4 _ _ _ _ hc.2.1]
    simp [hc, hrest]

/-- **An identifier written in single quotes**, between two texts. -/
structure Quotation where
  before : String
  id : String
  after : String
deriving Repr, DecidableEq

namespace Quotation

/-- The text of a quotation. -/
def text (q : Quotation) : String := q.before ++ "'" ++ q.id ++ "'" ++ q.after

/-- **A quotation reads back**: its first literal ends at the closing quote and denotes the
identifier. -/
def ReadsBack (q : Quotation) : Prop := firstLiteral? q.text = some (q.id, q.after)

instance (q : Quotation) : Decidable q.ReadsBack := inferInstanceAs (Decidable (_ = _))

theorem text_eq {before id after front back : String} (hfront : front = before ++ "'")
    (hback : back = "'" ++ after) : text ⟨before, id, after⟩ = front ++ id ++ back := by
  simp only [text, hfront, hback, String.append_assoc]

/-- **An identifier in quotes reads back exactly if it is plain.** -/
theorem readsBack_iff {before id after : String} (h : '\'' ∉ before.toList) :
    ReadsBack ⟨before, id, after⟩ ↔ IsPlain id := by
  have htext : (text ⟨before, id, after⟩).toList =
      before.toList ++ '\'' :: (id.toList ++ '\'' :: after.toList) := by
    simp [text]
  unfold ReadsBack firstLiteral?
  rw [htext, splitFirst?_append h]
  simp only
  constructor
  · intro hread
    split at hread
    · next codes rest hbody =>
      obtain ⟨value, hvalue, heq⟩ := Option.map_eq_some_iff.1 hread
      obtain ⟨hid, hafter⟩ := Prod.mk.inj heq
      have hvalue_eq : value = id.toList := by rw [← hid, String.toList_ofList]
      have hrest_eq : rest = after.toList := by rw [← hafter, String.toList_ofList]
      rw [hrest_eq] at hbody
      obtain ⟨read, hcs, hlen, hplain⟩ := readStringBody_length hbody
      -- the text read is the identifier itself, so that nothing in it was an escape
      obtain rfl : id.toList = read := List.append_cancel_right hcs
      have hshort := joinSurrogates_length hvalue
      rw [hvalue_eq] at hshort
      exact hplain (Nat.le_antisymm hlen hshort)
    · cases hread
  · intro hplain
    have hfuel : id.toList.length < (id.toList ++ '\'' :: after.toList).length + 1 := by
      rw [List.length_append]; omega
    rw [readStringBody_plain hplain _ hfuel]
    simp [joinSurrogates_chars]

end Quotation

/-! ### Where identifiers are written -/

/-- The identifier at the head of a block. -/
def blockQuotation (layout : Layout) (id : String) : Quotation :=
  ⟨"declare module ", id, " \x7b" ++ layout.eol⟩

/-- The identifiers in the lines of an alias. -/
def aliasQuotations (target : Target) (shape : ExportShape) (main : String) : List Quotation :=
  if target.hasModules then
    (if shape.hasDefault then [⟨"export \x7bdefault\x7d from ", main, ";"⟩] else []) ++
      (if shape.hasNamed || !shape.hasDefault then [⟨"export * from ", main, ";"⟩] else [])
  else [⟨"import main = require(", main, ");"⟩]

/-- A reference in the place of a node. -/
def Node.quotation (id : String) : Node → Quotation
  | .external _ => ⟨"require(", id, ")"⟩
  | _ => ⟨"", id, ""⟩

theorem text_blockQuotation (layout : Layout) (id : String) :
    (blockQuotation layout id).text = blockHeader layout id := by
  have hback : "' \x7b" ++ layout.eol = "'" ++ (" \x7b" ++ layout.eol) := by
    rw [← String.append_assoc]
    rfl
  have htext : blockHeader layout id = "declare module '" ++ id ++ ("' \x7b" ++ layout.eol) :=
    String.append_assoc
  rw [htext]
  exact Quotation.text_eq rfl hback

theorem text_quotation (node : Node) (id : String) :
    (node.quotation id).text = node.referring id := by
  cases node with
  | external target => exact Quotation.text_eq rfl rfl
  | specifier target | importType target | declareKeyword | moduleBlock name =>
    exact Quotation.text_eq rfl rfl

/-- The lines of an alias are its quotations, and a line without any where there are no modules. -/
theorem aliasLines_eq (target : Target) (shape : ExportShape) (main : String) :
    aliasLines target shape main = (aliasQuotations target shape main).map Quotation.text ++
      if target.hasModules then [] else ["export = main;"] := by
  have hdefault : Quotation.text ⟨"export \x7bdefault\x7d from ", main, ";"⟩ =
      "export \x7bdefault\x7d from '" ++ main ++ "';" := Quotation.text_eq rfl rfl
  have hall : Quotation.text ⟨"export * from ", main, ";"⟩ = "export * from '" ++ main ++ "';" :=
    Quotation.text_eq rfl rfl
  have hrequire : Quotation.text ⟨"import main = require(", main, ");"⟩ =
      "import main = require('" ++ main ++ "');" := Quotation.text_eq rfl rfl
  unfold aliasLines aliasQuotations
  by_cases hmodules : target.hasModules = true
  · rw [if_pos hmodules, if_pos hmodules, if_pos hmodules]
    cases shape.hasDefault <;> cases shape.hasNamed <;> simp [hdefault, hall]
  · rw [if_neg hmodules, if_neg hmodules, if_neg hmodules]
    simp [hrequire]

theorem blockQuotation_readsBack_iff {layout : Layout} {id : String} :
    (blockQuotation layout id).ReadsBack ↔ IsPlain id :=
  Quotation.readsBack_iff (by decide)

theorem quotation_readsBack_iff {node : Node} {id : String} :
    (node.quotation id).ReadsBack ↔ IsPlain id := by
  cases node with
  | external target => exact Quotation.readsBack_iff (by decide)
  | specifier target | importType target | declareKeyword | moduleBlock name =>
    exact Quotation.readsBack_iff (by decide)

theorem aliasQuotations_readsBack_iff {target : Target} {shape : ExportShape} {main : String} :
    (∀ q ∈ aliasQuotations target shape main, q.ReadsBack) ↔ IsPlain main := by
  have hdefault : Quotation.ReadsBack ⟨"export \x7bdefault\x7d from ", main, ";"⟩ ↔ IsPlain main :=
    Quotation.readsBack_iff (by decide)
  have hall : Quotation.ReadsBack ⟨"export * from ", main, ";"⟩ ↔ IsPlain main :=
    Quotation.readsBack_iff (by decide)
  have hrequire : Quotation.ReadsBack ⟨"import main = require(", main, ");"⟩ ↔ IsPlain main :=
    Quotation.readsBack_iff (by decide)
  unfold aliasQuotations
  by_cases hmodules : target.hasModules = true
  · rw [if_pos hmodules]
    cases shape.hasDefault <;> cases shape.hasNamed <;> simp [hdefault, hall]
  · rw [if_neg hmodules]
    simp [hrequire]

/-! ### Plain identifiers -/

namespace IsPlain

variable {a b : String}

theorem append (ha : IsPlain a) (hb : IsPlain b) : IsPlain (a ++ b) := by
  intro c hc
  rw [String.toList_append] at hc
  rcases List.mem_append.1 hc with hc | hc
  · exact ha c hc
  · exact hb c hc

theorem intercalate {parts : List String} (h : ∀ s ∈ parts, IsPlain s) :
    IsPlain ("/".intercalate parts) := by
  induction parts with
  | nil => decide
  | cons s parts ih =>
    have hs := h s List.mem_cons_self
    have ih := ih fun t ht => h t (List.mem_cons_of_mem _ ht)
    by_cases hne : parts = []
    · rwa [hne, String.intercalate_singleton]
    · rw [String.intercalate_cons_of_ne_nil hne]
      exact (hs.append (by decide)).append ih

theorem ofList_of_subset {cs : List Char} (ha : IsPlain a) (h : cs ⊆ a.toList) :
    IsPlain (String.ofList cs) := by
  intro c hc
  rw [String.toList_ofList] at hc
  exact ha c (h hc)

theorem ofList_of_mem_split {cs w : List Char} (h : ∀ c ∈ cs, c ∉ literalMarks)
    (hw : w ∈ split '/' cs) : IsPlain (String.ofList w) := by
  intro c hc
  rw [String.toList_ofList] at hc
  exact h c (mem_of_mem_split hw hc)

theorem pieces {p : Path} (hp : IsPlain p.text) : ∀ s ∈ p.pieces, IsPlain s := by
  intro s hs
  obtain ⟨w, hw, rfl⟩ := List.mem_map.1 hs
  exact ofList_of_mem_split hp hw

theorem trimBack {parts : List String} (h : ∀ s ∈ parts, IsPlain s) :
    ∀ s ∈ Path.trimBack parts, IsPlain s := by
  intro s hs
  have hmem := (List.dropWhile_sublist _).subset (List.mem_reverse.1 hs)
  exact h s (List.mem_reverse.1 hmem)

theorem dropSteps {parts : List String} (h : ∀ s ∈ parts, IsPlain s) (n : Nat) :
    ∀ s ∈ Path.dropSteps n parts, IsPlain s := by
  induction n generalizing parts with
  | zero => exact h
  | succ n ih =>
    apply ih
    intro s hs
    exact h s ((List.dropWhile_sublist _).subset (List.mem_of_mem_drop hs))

theorem piecesAfter {p : Path} (hp : IsPlain p.text) (n : Nat) :
    ∀ s ∈ p.piecesAfter n, IsPlain s := by
  have hdrop : ∀ s ∈ p.pieces.drop 1, IsPlain s := fun s hs => hp.pieces s (List.mem_of_mem_drop hs)
  unfold Path.piecesAfter
  split
  · exact dropSteps hdrop _
  · exact dropSteps hdrop _
  · exact dropSteps hp.pieces _

/-- The rest of a plain path below another is plain. -/
theorem relativeTo? {p base q : Path} (hp : IsPlain p.text) (h : p.relativeTo? base = some q) :
    IsPlain q.text := by
  have hpieces := hp.pieces
  unfold Path.relativeTo? at h
  split at h
  · split at h
    · obtain rfl := Option.some.inj h
      unfold Path.trimEnd
      split
      · next rest hrest =>
        rw [hrest] at hpieces
        have hback := trimBack fun s hs => hpieces s (List.mem_cons_of_mem _ hs)
        split
        · exact IsPlain.append (a := "/") (by decide) (intercalate hback)
        · decide
      · next rest hrest =>
        rw [hrest] at hpieces
        have hback := trimBack fun s hs => hpieces s (List.mem_cons_of_mem _ hs)
        exact intercalate (List.forall_mem_cons.2 ⟨by decide, hback⟩)
      · exact intercalate (trimBack hpieces)
    · obtain rfl := Option.some.inj h
      refine intercalate (trimBack fun s hs => ?_)
      exact hp.piecesAfter _ s ((List.dropWhile_sublist _).subset hs)
  · cases h

theorem stripFirst (ha : IsPlain a) (suffixes : List String) :
    IsPlain (ModuleId.stripFirst suffixes a) := by
  unfold ModuleId.stripFirst
  split
  · next rest hrest =>
    obtain ⟨e, -, hcut⟩ := List.exists_of_findSome?_eq_some hrest
    refine ha.ofList_of_subset ?_
    rw [cutBack?_eq_some.1 hcut]
    exact List.subset_append_left _ _
  · exact ha

/-- **The identifier of a file is plain** if its path and the package name are. -/
theorem ofPath {path root : Path} {name : Option String} (hpath : IsPlain path.text)
    (hname : IsPlain (name.getD "")) : IsPlain (ModuleId.ofPath path root name) := by
  have hrelative : IsPlain ((path.relativeTo? root).getD path).text := by
    cases hrest : path.relativeTo? root with
    | none => exact hpath
    | some rest => exact hpath.relativeTo? hrest
  have hid : IsPlain (String.ofList (dropLeading '/'
      (ModuleId.stripSuffix ((path.relativeTo? root).getD path).text).toList)) :=
    (hrelative.stripFirst _).ofList_of_subset (List.dropWhile_sublist _).subset
  unfold ModuleId.ofPath
  split
  · exact hid
  · exact hid
  · next name _ =>
    have hfront : IsPlain (String.ofList (dropTrailing '/' name.toList)) := by
      refine ofList_of_subset hname fun c hc => ?_
      have hmem := (List.dropWhile_sublist _).subset (List.mem_reverse.1 hc)
      exact List.mem_reverse.1 hmem
    exact (hfront.append (by decide)).append hid

/-- **What a specifier means is plain** if it is, and the identifier of the module it stands in. -/
theorem resolve {current specifier : String} (hcurrent : IsPlain current)
    (hspecifier : IsPlain specifier) : IsPlain (ModuleId.resolve current specifier) := by
  have hdirectory : ∀ s ∈ ModuleId.directory current, IsPlain s := by
    unfold ModuleId.directory
    split
    · next before after hsplit =>
      intro s hs
      obtain ⟨w, hw, rfl⟩ := List.mem_map.1 hs
      refine ofList_of_mem_split (fun c hc => hcurrent c ?_) (List.mem_of_mem_filter hw)
      rw [(splitLast?_eq_some.1 hsplit).1]
      exact List.mem_append_left _ hc
    · simp
  have hfollow : ∀ s ∈ ModuleId.follow (ModuleId.directory current) specifier, IsPlain s := by
    intro s hs
    rw [ModuleId.follow_eq, List.mem_reverse] at hs
    refine ModuleId.forall_mem_foldl_step (P := IsPlain) (by decide) ?_ ?_ s hs
    · intro t ht _
      exact IsPlain.pieces hspecifier t ht
    · intro t ht
      exact hdirectory t (List.mem_reverse.1 ht)
  unfold ModuleId.resolve
  split
  · decide
  · exact ((intercalate hfollow).stripFirst _).stripFirst _

theorem withIdPrefix {idPrefix : Option String} {id : String} (hid : IsPlain id)
    (hfront : IsPlain (idPrefix.getD "")) : IsPlain (AmbientBundle.withIdPrefix idPrefix id) := by
  unfold AmbientBundle.withIdPrefix
  split
  · next front hsome =>
    obtain ⟨rfl, -⟩ := Option.filter_eq_some_iff.1 hsome
    exact (IsPlain.append hfront (by decide)).append hid
  · exact hid

end IsPlain

/-! ### Runs -/

/-- **What is written for a module of a bundle**: its block, with the identifier of the block at its
head, and the references in it, each with what it means. -/
structure ModuleLiterals (o : Options) (entries : List Entry) (resolver : Resolver)
    (current id : String) (d : Declaration) : Prop where
  block : ∃ content rest, Entry.moduleBlock id content ∈ entries ∧
    d.replace? (resolver.rules current) = some content ∧
    Entry.text o.layout (.moduleBlock id content) = (blockQuotation o.layout id).text ++ rest
  head_iff : (blockQuotation o.layout id).ReadsBack ↔ IsPlain id
  reference_iff : ∀ node specifier meant, node.referenced? = some specifier →
    resolver.resolve specifier current = some meant →
      resolver.rules current node = some (node.quotation meant).text ∧
        ((node.quotation meant).ReadsBack ↔ IsPlain meant)

/-- **What is written for the alias of a bundle**: its block, with the name at its head, and the
lines that refer to the main module. -/
structure AliasLiterals (o : Options) (entries : List Entry) (target : Target) (name main : String) :
    Prop where
  block : ∃ shape rest, Entry.mainAlias name main shape target ∈ entries ∧
    Entry.text o.layout (.mainAlias name main shape target) =
      (blockQuotation o.layout name).text ++ rest ∧
    (∀ q ∈ aliasQuotations target shape main, q.text ∈ aliasLines target shape main) ∧
    ((∀ q ∈ aliasQuotations target shape main, q.ReadsBack) ↔ IsPlain main)
  head_iff : (blockQuotation o.layout name).ReadsBack ↔ IsPlain name

section Runs

variable {emit : Emitter} {w : Workspace} {plan : Plan} {o : Options} {c : Compilation}

theorem moduleLiterals {entries : List Entry} {resolver : Resolver} {current id content : String}
    {d : Declaration} (hentry : Entry.moduleBlock id content ∈ entries)
    (hcontent : d.replace? (resolver.rules current) = some content) :
    ModuleLiterals o entries resolver current id d where
  block := by
    refine ⟨content, blockLine o.layout (indentLines o.layout content) ++ blockFooter o.layout,
      hentry,
      hcontent, ?_⟩
    rw [text_blockQuotation]
    exact String.append_assoc
  head_iff := blockQuotation_readsBack_iff
  reference_iff := by
    intro node specifier meant hnode hmeant
    rw [text_quotation]
    exact ⟨Resolver.rules_eq_some hnode hmeant, quotation_readsBack_iff⟩

theorem aliasLiterals {entries : List Entry} {target : Target} {name main : String}
    {shape : ExportShape} (hentry : Entry.mainAlias name main shape target ∈ entries) :
    AliasLiterals o entries target name main where
  block := by
    refine ⟨shape, String.join ((aliasLines target shape main).map (blockLine o.layout)) ++
      blockFooter o.layout, hentry, ?_, ?_, aliasQuotations_readsBack_iff⟩
    · rw [text_blockQuotation]
      exact String.append_assoc
    · intro q hq
      rw [aliasLines_eq]
      exact List.mem_append_left _ (List.mem_map_of_mem hq)
  head_iff := blockQuotation_readsBack_iff

/-- A module that is accepted has its block in the bundle. -/
theorem exists_moduleBlock (hfault : (progressOf plan o c).fault = none) {unit : CompilationUnit}
    (hunit : unit ∈ c.units) (haccept : plan.accepts unit = true) {d : Declaration}
    (hmodule : unit.module? = some d) :
    ∃ content, d.replace? ((resolverFor o c.units).rules (unitId plan o unit)) = some content ∧
      Entry.moduleBlock (unitBlockId plan o unit) content ∈
        bundleEntries plan o (progressOf plan o c).added := by
  have hdiagnostics := diagnostics_eq_nil_of_fault hfault
  rw [progressOf_eq hdiagnostics] at hfault ⊢
  obtain ⟨added, hmem, hadd⟩ := exists_added_of_mem hfault (List.mem_filter.2 ⟨hunit, haccept⟩)
  rcases contribution_cases hadd with ⟨d', hmodule', hadd⟩ | ⟨hnone, -⟩
  · obtain rfl := Option.some.inj (hmodule.symm.trans hmodule')
    obtain ⟨content, hcontent, rfl⟩ := moduleContribution_inv hadd
    refine ⟨content, hcontent, ?_⟩
    unfold bundleEntries
    refine List.mem_append_left _ (List.mem_append_right _ (List.mem_filterMap.2 ⟨_, hmem, rfl⟩))
  · rw [hnone] at hmodule
    cases hmodule

/-- Without hooks, the identifiers of a plain file are plain, and so is what a plain specifier means
in it. -/
theorem plain_identifiers {unit : CompilationUnit} {declared : List String} (hid : o.idHook = none)
    (himport : o.importHook = none) (hpath : IsPlain unit.declarationPath.text)
    (hname : IsPlain (o.name.getD "")) (hfront : IsPlain (o.idPrefix.getD "")) :
    IsPlain (unitBlockId plan o unit) ∧ ∀ specifier meant, IsPlain specifier →
      (Resolver.mk declared o.idPrefix o.importHook).resolve specifier (unitId plan o unit) =
        some meant → IsPlain meant := by
  have hcurrent : IsPlain (unitId plan o unit) := hpath.ofPath hname
  refine ⟨?_, fun specifier meant hspecifier hmeant => ?_⟩
  · unfold unitBlockId
    rw [hid]
    exact hcurrent.withIdPrefix hfront
  · have hresolve := hcurrent.resolve hspecifier
    rw [himport] at hmeant
    have hplain : (Resolver.mk declared o.idPrefix none).resolvePlain specifier
        (unitId plan o unit) = some meant := hmeant
    unfold Resolver.resolvePlain at hplain
    split at hplain
    · obtain rfl := Option.some.inj hplain
      split
      · exact hresolve
      · exact hresolve.withIdPrefix hfront
    · cases hplain

/-- **Which literals of a bundle denote what they were written for.** Identifiers and references are
written between quotes as they are, at the head of each block, in the place of each reference and in
the lines of the alias, and each reads back exactly if it is plain. Without hooks, they are all
plain if the paths of the files, the package name, the prefix and the specifiers are. -/
theorem written_literals_read_iff (hw : w.IsRooted) (hplan : Plan.resolve w o = .ok plan)
    (hemit : emit.Gives w o c) (hok : (generateWith emit w o).result = .ok ())
    (hid : o.idHook = none) (himport : o.importHook = none) :
    let entries := bundleEntries plan o (progressOf plan o c).added
    let resolver := resolverFor o c.units
    (generateWith emit w o).workspace.readText plan.out =
        .ok (String.join (entries.map (Entry.text o.layout))) ∧
      (∀ unit ∈ c.units, plan.accepts unit = true → ∀ d, unit.module? = some d →
        ModuleLiterals o entries resolver (unitId plan o unit) (unitBlockId plan o unit) d ∧
        (IsPlain unit.declarationPath.text → IsPlain (o.name.getD "") →
          IsPlain (o.idPrefix.getD "") → IsPlain (unitBlockId plan o unit) ∧
            ∀ specifier meant, IsPlain specifier →
              resolver.resolve specifier (unitId plan o unit) = some meant → IsPlain meant)) ∧
      ∀ name main, o.name = some name → o.main = some main →
        AliasLiterals o entries plan.target name main := by
  intro entries resolver
  obtain ⟨hfault, htext⟩ := readText_of_ok hw hplan hemit hok
  refine ⟨htext, ?_, ?_⟩
  · intro unit hunit haccept d hmodule
    obtain ⟨content, hcontent, hentry⟩ := exists_moduleBlock hfault hunit haccept hmodule
    exact ⟨moduleLiterals hentry hcontent, plain_identifiers hid himport⟩
  · intro name main hname hmain
    have hentry : Entry.mainAlias name main (mainShape (progressOf plan o c).added) plan.target ∈
        entries := by
      refine List.mem_append_right _ ?_
      unfold aliasEntries mainAlias?
      rw [hname, hmain]
      exact List.mem_singleton_self _
    exact aliasLiterals hentry

end Runs

/-! ### A small program -/

namespace Sample

/-- A module that refers to a file with a quote in its name. -/
def quotingUnit : CompilationUnit :=
  .emitted ⟨"/work/src/a.ts"⟩ ⟨"/work/src/a.d.ts"⟩ "export * from \"./it's\";\n" []

end Sample

theorem written_literals_read_iff_sample : ∃ plan d,
    Plan.resolve Sample.workspace Sample.options = .ok plan ∧
    (generateWith (Sample.emitting [Sample.mainUnit]) Sample.workspace Sample.options).result =
      .ok () ∧
    Sample.mainUnit.module? = some d ∧
    (let entries := bundleEntries plan Sample.options (progressOf plan Sample.options
      ⟨[Sample.mainUnit], []⟩).added
    ModuleLiterals Sample.options entries (resolverFor Sample.options [Sample.mainUnit]) "p/a" "q/p/a"
        d ∧
      (blockQuotation Sample.options.layout "q/p/a").ReadsBack ∧
      AliasLiterals Sample.options entries plan.target "p" "p/a") := by
  obtain ⟨plan, hplan⟩ := Sample.exists_plan
  have hrooted : Sample.workspace.IsRooted := by decide +kernel
  have hok : (generateWith (Sample.emitting [Sample.mainUnit]) Sample.workspace
      Sample.options).result = .ok () := by decide +kernel
  have hsome : Sample.mainUnit.module?.isSome = true := by decide +kernel
  obtain ⟨d, hmodule⟩ := Option.isSome_iff_exists.1 hsome
  have hcheck : ((Plan.resolve Sample.workspace Sample.options).map fun plan : Plan =>
      decide (plan.accepts Sample.mainUnit = true ∧
        unitId plan Sample.options Sample.mainUnit = "p/a" ∧
        unitBlockId plan Sample.options Sample.mainUnit = "q/p/a")) = .ok true := by
    decide +kernel
  rw [hplan] at hcheck
  obtain ⟨haccept, hid, hblock⟩ := of_decide_eq_true (Except.ok.inj hcheck)
  obtain ⟨-, hunits, halias⟩ := written_literals_read_iff hrooted hplan
    (Sample.emitting_gives Sample.workspace Sample.options [Sample.mainUnit]) hok rfl rfl
  obtain ⟨hliterals, hplain⟩ := hunits _ (List.mem_singleton_self _) haccept d hmodule
  have hread := (hplain (by decide) (by decide) (by decide)).1
  rw [hid, hblock] at hliterals
  rw [hblock] at hread
  exact ⟨plan, d, hplan, hok, hmodule, hliterals, hliterals.head_iff.2 hread,
    halias "p" "p/a" rfl rfl⟩

/-- **Identifiers that are misread.** A quote in the name of a file ends the literals that its
identifier is written in, and a backslash starts an escape. -/
theorem quoted_identifier_misread :
    ModuleId.ofPath ⟨"/w/it's/a.d.ts"⟩ ⟨"/w"⟩ (some "p") = "p/it's/a" ∧
    firstLiteral? (blockHeader ⟨"\n", "\t"⟩ "p/it's/a") = some ("p/it", "s/a' \x7b\n") ∧
    (generateWith (Sample.emitting [Sample.quotingUnit]) Sample.workspace Sample.options).result =
      .ok () ∧
    (generateWith (Sample.emitting [Sample.quotingUnit]) Sample.workspace
        Sample.options).workspace.readText ⟨"/work/out.d.ts"⟩ =
      .ok ("/// <reference path=\"e.d.ts\" />\ndeclare module 'q/p/a' \x7b\n\t" ++
        "export * from 'q/p/it's';\n\n\x7d\n" ++
        "declare module 'p' \x7b\n\texport * from 'p/a';\n\x7d\n") ∧
    firstLiteral? "'q/p/it's'" = some ("q/p/it", "s'") ∧
    firstLiteral? (blockHeader ⟨"\n", "\t"⟩ "p/a\\b") = some ("p/a\x08", " \x7b\n") := by
  decide +kernel

end AmbientBundle
