import LayeredCache.Assembly.Properties
import LayeredCache.Proofs.Fields
import LayeredCache.Proofs.Text.Trimming

/-!
# Properties in one line

What the one-line form of a property map says. A segment between commas gives a text to a name if the first equals sign
of the segment stands between the two, blanks apart, and the name is not empty (`Gives`); of the segments that give a
text to one name the last counts. A map whose names and texts can be written in this form (`Plain`) is read back from
its entries, in whatever order and with whatever blanks they were written.
-/

namespace LayeredCache.Properties

open Text (Pads Trimmed)

/-- The text that is left without the blanks at both ends. -/
structure TrimsTo (padded : List Char) (text : String) : Prop where
  pads : Pads padded text.toList
  trimmed : Trimmed text.toList

/-- What stands before and after the first equals sign of a segment is a name and its text. -/
def Gives (segment : List Char) (name value : String) : Prop :=
  ∃ left right, segment = left ++ '=' :: right ∧ '=' ∉ left ∧ TrimsTo left name ∧ name ≠ "" ∧ TrimsTo right value

/-- A text is an entry with blanks around the name and around the text of it. -/
def Writes (text : String) (entry : String × String) : Prop :=
  ∃ left right, text.toList = left ++ '=' :: right ∧ Pads left entry.1.toList ∧ Pads right entry.2.toList

/-- An entry that can be written in one line: the marks of the form and blanks at the ends do not occur in it, other
than that a text may have equals signs. -/
structure PlainEntry (entry : String × String) : Prop where
  name_ne : entry.1 ≠ ""
  name_trimmed : Trimmed entry.1.toList
  name_marks : ',' ∉ entry.1.toList ∧ '=' ∉ entry.1.toList
  value_trimmed : Trimmed entry.2.toList
  value_marks : ',' ∉ entry.2.toList

def Plain (p : Properties) : Prop :=
  ∀ entry ∈ p.entries, PlainEntry entry

variable {padded segment left right : List Char} {text name value : String} {entry : String × String} {p : Properties}

/-! ## Segments -/

lemma trimsTo_iff : TrimsTo padded text ↔ String.ofList (Text.trim padded) = text := by
  have heq : String.ofList (Text.trim padded) = text ↔ Text.trim padded = text.toList :=
    ⟨fun h => h ▸ String.toList_ofList.symm, fun h => h ▸ String.ofList_toList⟩
  rw [heq, Text.trim_eq]
  exact ⟨fun h => ⟨h.pads, h.trimmed⟩, fun h => ⟨h.1, h.2⟩⟩

lemma segments_eq_splitOn (cs : List Char) : segments cs = cs.splitOn ',' := by
  induction cs with
  | nil => rfl
  | cons c cs ih =>
    rw [segments, List.splitOn_cons_eq_if_modifyHead, ih]
    by_cases hc : c = ','
    · rw [if_pos hc, if_pos (beq_iff_eq.2 hc)]
    · rw [if_neg hc, if_neg (fun h => hc (beq_iff_eq.1 h))]
      obtain ⟨segment, rest, hsplit⟩ := List.exists_cons_of_ne_nil (List.splitOn_ne_nil ',' cs)
      rw [hsplit]
      rfl

lemma entry_of_notMem (h : '=' ∉ segment) : entry? segment = none := by
  have hdrop : segment.dropWhile (· ≠ '=') = [] :=
    List.dropWhile_eq_nil_iff.2 fun c hc => decide_eq_true fun heq => h (heq ▸ hc)
  unfold entry?
  rw [hdrop]

/-- What becomes of a segment that is divided by its first equals sign. -/
lemma entry_divided (hleft : '=' ∉ left) : entry? (left ++ '=' :: right) =
    if String.ofList (Text.trim left) = "" then none
    else some (String.ofList (Text.trim left), String.ofList (Text.trim right)) := by
  have hbefore : ∀ c ∈ left, decide (c ≠ '=') = true := fun c hc => decide_eq_true fun heq => hleft (heq ▸ hc)
  have htake : (left ++ '=' :: right).takeWhile (· ≠ '=') = left := by
    rw [List.takeWhile_append_of_pos hbefore]
    simp
  have hdrop : (left ++ '=' :: right).dropWhile (· ≠ '=') = '=' :: right := by
    rw [List.dropWhile_append_of_pos hbefore]
    simp
  unfold entry?
  rw [hdrop, htake]
  cases Text.trim left with
  | nil => rfl
  | cons c cs =>
    have hname : String.ofList (c :: cs) ≠ "" := fun h => by
      have hcs := congrArg String.toList h
      rw [String.toList_ofList] at hcs
      cases hcs
    rw [if_neg hname]

/-- The entry of a segment is the one that the segment gives. -/
lemma entry_eq_some : entry? segment = some (name, value) ↔ Gives segment name value := by
  constructor
  · intro hentry
    have hmem : '=' ∈ segment := by
      by_contra hnot
      rw [entry_of_notMem hnot] at hentry
      cases hentry
    obtain ⟨left, right, rfl, hleft⟩ := List.eq_append_cons_of_mem hmem
    rw [entry_divided hleft] at hentry
    split at hentry
    · cases hentry
    · rename_i hname
      cases hentry
      exact ⟨left, right, rfl, hleft, trimsTo_iff.2 rfl, hname, trimsTo_iff.2 rfl⟩
  · rintro ⟨left, right, rfl, hleft, hname, hne, hvalue⟩
    rw [trimsTo_iff] at hname hvalue
    rw [entry_divided hleft, hname, hvalue, if_neg hne]

/-! ## Lines -/

/-- What is found in a map that was read is the last that a segment gave. -/
lemma get?_parse (raw name : String) :
    (parse raw).get? name = ((raw.toList.splitOn ',').filterMap entry?).reverse.lookup name := by
  rw [get?, parse, ofList, segments_eq_splitOn]
  exact Fields.lookup_ofList _ name

lemma get?_parse_eq_some (raw : String) : (parse raw).get? name = some value ↔
    ∃ before segment after, raw.toList.splitOn ',' = before ++ segment :: after ∧
      Gives segment name value ∧ ∀ later ∈ after, ∀ other, ¬Gives later name other := by
  rw [get?_parse, Fields.lookup_reverse_eq_some]
  constructor
  · rintro ⟨entriesBefore, entriesAfter, heq, hafter⟩
    obtain ⟨before, rest, hsplit, -, hrest⟩ := List.filterMap_eq_append_iff.1 heq
    obtain ⟨skipped, segment, after, rfl, -, hsegment, hentries⟩ := List.filterMap_eq_cons_iff.1 hrest
    refine ⟨before ++ skipped, segment, after, by simpa using hsplit, entry_eq_some.1 hsegment, ?_⟩
    intro later hlater other hgives
    have hmem : (name, other) ∈ entriesAfter :=
      hentries ▸ List.mem_filterMap.2 ⟨later, hlater, entry_eq_some.2 hgives⟩
    exact hafter _ hmem rfl
  · rintro ⟨before, segment, after, hsplit, hgives, hafter⟩
    refine ⟨before.filterMap entry?, after.filterMap entry?, ?_, ?_⟩
    · rw [hsplit, List.filterMap_append, List.filterMap_cons_some (entry_eq_some.2 hgives)]
    · rintro ⟨other, given⟩ hmem rfl
      obtain ⟨later, hlater, hentry⟩ := List.mem_filterMap.1 hmem
      exact hafter later hlater given (entry_eq_some.1 hentry)

/-- A line after another one overrides it. -/
lemma get?_parse_append (a b name : String) :
    (parse (a ++ "," ++ b)).get? name = ((parse b).get? name).or ((parse a).get? name) := by
  have hlist : (a ++ "," ++ b).toList = a.toList ++ ',' :: b.toList := by
    rw [String.toList_append, String.toList_append, List.append_assoc]
    rfl
  rw [get?_parse, get?_parse, get?_parse, hlist, List.splitOn_append_cons_self, List.filterMap_append,
    List.reverse_append, List.lookup_append]

/-! ## Writing a map -/

lemma notMem_of_pads {cs : List Char} {mark : Char} (hpads : Pads padded cs) (hmark : Text.isBlank mark = false)
    (hcs : mark ∉ cs) : mark ∉ padded := by
  obtain ⟨before, after, rfl, hbefore, hafter⟩ := hpads
  have hblank : ∀ {blanks : List Char}, (∀ c ∈ blanks, Text.isBlank c = true) → mark ∉ blanks := fun h hmem =>
    Bool.false_ne_true (hmark.symm.trans (h mark hmem))
  simp [hblank hbefore, hblank hafter, hcs]

lemma Writes.entry_eq (h : Writes text entry) (hplain : PlainEntry entry) : entry? text.toList = some entry := by
  obtain ⟨left, right, htext, hleft, hright⟩ := h
  have hdivides : '=' ∉ left := notMem_of_pads hleft rfl hplain.name_marks.2
  exact entry_eq_some.2 ⟨left, right, htext, hdivides, ⟨hleft, hplain.name_trimmed⟩, hplain.name_ne,
    ⟨hright, hplain.value_trimmed⟩⟩

lemma Writes.comma_notMem (h : Writes text entry) (hplain : PlainEntry entry) : ',' ∉ text.toList := by
  obtain ⟨left, right, htext, hleft, hright⟩ := h
  have hname : ',' ∉ left := notMem_of_pads hleft rfl hplain.name_marks.1
  have hvalue : ',' ∉ right := notMem_of_pads hright rfl hplain.value_marks
  simp [htext, hname, hvalue]

/-- Between the commas of a joined line stand the texts that were joined. -/
lemma splitOn_join {texts : List String} (htexts : ∀ text ∈ texts, ',' ∉ text.toList) (hne : texts ≠ []) :
    (String.intercalate "," texts).toList.splitOn ',' = texts.map String.toList := by
  rw [String.toList_intercalate]
  refine List.splitOn_intercalate ',' (fun segment hsegment => ?_) (by simpa using hne)
  obtain ⟨text, htext, rfl⟩ := List.mem_map.1 hsegment
  exact htexts text htext

lemma filterMap_entry {texts : List String} {entries : List (String × String)}
    (hwrites : List.Forall₂ Writes texts entries) (hplain : ∀ entry ∈ entries, PlainEntry entry) :
    (texts.map String.toList).filterMap entry? = entries := by
  induction hwrites with
  | nil => rfl
  | cons hfirst _ ih =>
    obtain ⟨hentry, hentries⟩ := List.forall_mem_cons.1 hplain
    rw [List.map_cons, List.filterMap_cons_some (hfirst.entry_eq hentry), ih hentries]

lemma forall_comma_notMem {texts : List String} {entries : List (String × String)}
    (hwrites : List.Forall₂ Writes texts entries) (hplain : ∀ entry ∈ entries, PlainEntry entry) :
    ∀ text ∈ texts, ',' ∉ text.toList := by
  induction hwrites with
  | nil => simp
  | cons hfirst _ ih =>
    obtain ⟨hentry, hentries⟩ := List.forall_mem_cons.1 hplain
    exact List.forall_mem_cons.2 ⟨hfirst.comma_notMem hentry, ih hentries⟩

/-- The entries of a line in which entries were written. -/
lemma entries_of_join {texts : List String} {entries : List (String × String)}
    (hwrites : List.Forall₂ Writes texts entries) (hplain : ∀ entry ∈ entries, PlainEntry entry) :
    ((String.intercalate "," texts).toList.splitOn ',').filterMap entry? = entries := by
  by_cases hne : texts = []
  · -- a line without entries is one empty segment
    subst hne
    cases hwrites
    rfl
  · rw [splitOn_join (forall_comma_notMem hwrites hplain) hne, filterMap_entry hwrites hplain]

lemma ext_get? {p q : Properties} (h : ∀ name, p.get? name = q.get? name) : p = q := by
  obtain ⟨entries, hascending⟩ := p
  obtain ⟨others, hothers⟩ := q
  obtain rfl : entries = others := hascending.eq_of_lookup hothers h
  rfl

/-- A map that can be written in one line is read back from its entries, in any order and with any blanks. -/
lemma parse_join {texts : List String} {order : List (String × String)} (hplain : p.Plain)
    (horder : order.Perm p.entries) (hwrites : List.Forall₂ Writes texts order) :
    parse (String.intercalate "," texts) = p := by
  refine ext_get? fun name => ?_
  have hentries := entries_of_join hwrites fun entry hentry => hplain entry (horder.mem_iff.1 hentry)
  -- every name is there once, so neither the order nor which of the texts counts matters
  have hreversed : order.reverse.Perm p.entries := (List.reverse_perm order).trans horder
  rw [get?_parse, hentries]
  exact Fields.lookup_of_perm hreversed p.ascending.nodup name

/-- The one-line form of property maps. A name has a text if and only if some segment between commas gives the text to
the name and no later segment gives the name any text; a line that follows another one after a comma overrides it; and a
map whose entries can be written is read back from them, whatever their order and whatever blanks are around names and
texts. -/
theorem parse_grammar :
    (∀ raw name value, (parse raw).get? name = some value ↔
      ∃ before segment after, raw.toList.splitOn ',' = before ++ segment :: after ∧
        Gives segment name value ∧ ∀ later ∈ after, ∀ other, ¬Gives later name other) ∧
    (∀ a b name, (parse (a ++ "," ++ b)).get? name = ((parse b).get? name).or ((parse a).get? name)) ∧
    ∀ (p : Properties) (order : List (String × String)) (texts : List String), p.Plain → order.Perm p.entries →
      List.Forall₂ Writes texts order → parse (String.intercalate "," texts) = p :=
  ⟨fun raw _ _ => get?_parse_eq_some raw, get?_parse_append, fun _ _ _ => parse_join⟩

/-- Two properties, the later one written first, one text with an equals sign and with a wide blank after it. -/
theorem parse_grammar_two :
    parse (String.intercalate "," ["url = a=b\u2003", " size=10"]) = ⟨[("size", "10"), ("url", "a=b")], by decide⟩ := by
  refine parse_grammar.2.2 _ [("url", "a=b"), ("size", "10")] _ ?_ (List.Perm.swap ..) (.cons ?_ (.cons ?_ .nil))
  · have hsize : PlainEntry ("size", "10") := ⟨by decide, by decide, by decide, by decide, by decide⟩
    have hurl : PlainEntry ("url", "a=b") := ⟨by decide, by decide, by decide, by decide, by decide⟩
    exact List.forall_mem_cons.2 ⟨hsize, List.forall_mem_cons.2 ⟨hurl, by simp⟩⟩
  · have hname : Pads ['u', 'r', 'l', ' '] "url".toList :=
      ⟨[], [' '], rfl, List.all_eq_true.1 rfl, List.all_eq_true.1 rfl⟩
    have hvalue : Pads [' ', 'a', '=', 'b', '\u2003'] "a=b".toList :=
      ⟨[' '], ['\u2003'], rfl, List.all_eq_true.1 rfl, List.all_eq_true.1 rfl⟩
    exact ⟨_, _, rfl, hname, hvalue⟩
  · have hname : Pads [' ', 's', 'i', 'z', 'e'] "size".toList :=
      ⟨[' '], [], rfl, List.all_eq_true.1 rfl, List.all_eq_true.1 rfl⟩
    have hvalue : Pads ['1', '0'] "10".toList := ⟨[], [], rfl, List.all_eq_true.1 rfl, List.all_eq_true.1 rfl⟩
    exact ⟨_, _, rfl, hname, hvalue⟩

end LayeredCache.Properties
