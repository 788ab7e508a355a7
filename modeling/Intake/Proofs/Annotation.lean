import Intake.Proofs.Model.Description
import Intake.Proofs.Rule
import Intake.Proofs.Value.Entries

/-!
The two annotations of a field and what they mean. Reading gives exactly the rules that can be written between
commas, and writing those is undone by reading. For messages the first part that names a rule counts: reading
gives one message for each rule that is named, in the order of those first parts, and writing messages for
different rules is undone by reading.
-/

namespace Intake

namespace Text

theorem joinChars_eq_intercalate (sep : Char) (pieces : List (List Char)) :
    joinChars sep pieces = [sep].intercalate pieces := by
  induction pieces with
  | nil => rfl
  | cons piece rest ih =>
      cases rest with
      | nil => rw [joinChars, List.intercalate_singleton]
      | cons next rest =>
          rw [joinChars, ih, List.intercalate_cons_cons, List.append_assoc, List.singleton_append]

/-- Texts that are joined are the pieces of the text again. -/
theorem split_intercalate {sep : Char} {pieces : List String} (hsome : pieces ≠ [])
    (hfree : ∀ piece ∈ pieces, sep ∉ piece.toList) :
    split sep ((String.singleton sep).intercalate pieces) = pieces := by
  have hpieces : ((String.singleton sep).intercalate pieces).toList = joinChars sep (pieces.map String.toList) := by
    rw [joinChars_eq_intercalate, String.toList_intercalate, String.toList_singleton]
  rw [split, hpieces, splitChars_joinChars (by simpa using hsome), List.map_map]
  · exact (List.map_congr_left fun piece _ => String.ofList_toList).trans (List.map_id pieces)
  · intro chars hchars
    obtain ⟨piece, hpiece, rfl⟩ := List.mem_map.mp hchars
    exact hfree piece hpiece

theorem not_mem_of_mem_split {sep : Char} {s piece : String} (hpiece : piece ∈ split sep s) : sep ∉ piece.toList := by
  obtain ⟨chars, hchars, rfl⟩ := List.mem_map.mp hpiece
  rw [String.toList_ofList]
  exact not_mem_of_mem_splitChars hchars

/-- Nothing is trimmed from a list where neither end is to be, and something from every other list. -/
theorem trimBoth_eq_self_iff {p : Char → Bool} {cs : List Char} :
    trimBoth p cs = cs ↔ (∀ c ∈ cs.head?, p c = false) ∧ ∀ c ∈ cs.getLast?, p c = false := by
  have hback : trimBoth p cs = (cs.dropWhile p).rdropWhile p := rfl
  rw [hback]
  constructor
  · intro hsame
    -- Neither end can have been shortened, as the two together shorten nothing.
    have hfirst : cs.dropWhile p = cs := by
      refine (List.dropWhile_suffix p).eq_of_length_le ?_
      exact (congrArg List.length hsame).symm.le.trans (List.rdropWhile_prefix p _).length_le
    have hlast : cs.rdropWhile p = cs := by rwa [hfirst] at hsame
    cases cs with
    | nil => simp
    | cons c rest =>
        have hc := List.dropWhile_eq_self_iff.mp hfirst (by simp)
        have hd := List.rdropWhile_eq_self_iff.mp hlast (by simp)
        refine ⟨fun d hhead => ?_, fun d hend => ?_⟩
        · obtain rfl : c = d := by simpa using hhead
          simpa using hc
        · rw [List.getLast?_eq_some_getLast (by simp), Option.mem_def, Option.some.injEq] at hend
          simpa [hend] using hd
  · rintro ⟨hfirst, hlast⟩
    have hfront : cs.dropWhile p = cs := by
      refine List.dropWhile_eq_self_iff.mpr fun hsome => ?_
      simp [hfirst cs[0] (by rw [Option.mem_def, List.head?_eq_getElem?, List.getElem?_eq_getElem hsome])]
    rw [hfront]
    refine List.rdropWhile_eq_self_iff.mpr fun hsome => ?_
    simp [hlast _ (List.getLast?_eq_some_getLast hsome)]

theorem strip_eq_self_iff {s : String} :
    strip s = s ↔ (∀ c ∈ s.toList.head?, isBlank c = false) ∧ ∀ c ∈ s.toList.getLast?, isBlank c = false := by
  rw [← trimBoth_eq_self_iff, strip, ← String.toList_inj, String.toList_ofList]

end Text

namespace Rule

/-- A rule as an annotation can say it: no comma in its name or its argument, no equals sign in its name, and a
text that is not empty and has no blank at its ends. -/
structure IsWritable (r : Rule) : Prop where
  name_comma : ',' ∉ r.name.toList
  name_equals : '=' ∉ r.name.toList
  arg_comma : ∀ arg ∈ r.arg, ',' ∉ arg.toList
  ne_empty : r.text ≠ ""
  first : ∀ c ∈ r.text.toList.head?, Text.isBlank c = false
  last : ∀ c ∈ r.text.toList.getLast?, Text.isBlank c = false

/-- A comma in the text of a rule stands in its name or in its argument. -/
theorem comma_mem_text_iff {r : Rule} :
    ',' ∈ r.text.toList ↔ ',' ∈ r.name.toList ∨ ∃ arg ∈ r.arg, ',' ∈ arg.toList := by
  obtain ⟨name, arg⟩ := r
  cases arg with
  | none => simp [text]
  | some arg => simp [text]

theorem isWritable_iff {r : Rule} : r.IsWritable ↔ r.IsLegible := by
  constructor
  · intro h
    refine ⟨h.name_equals, ?_, h.ne_empty, Text.strip_eq_self_iff.mpr ⟨h.first, h.last⟩⟩
    rw [comma_mem_text_iff]
    rintro (hname | ⟨arg, harg, hcomma⟩)
    · exact h.name_comma hname
    · exact h.arg_comma arg harg hcomma
  · intro h
    obtain ⟨hfirst, hlast⟩ := Text.strip_eq_self_iff.mp h.stripped
    have hfree := comma_mem_text_iff.not.mp h.free
    exact ⟨fun hname => hfree (Or.inl hname), h.name, fun arg harg hcomma => hfree (Or.inr ⟨arg, harg, hcomma⟩),
      h.ne_empty, hfirst, hlast⟩

theorem write_eq_intercalate (rules : List Rule) : write rules = ",".intercalate (rules.map text) := by
  rw [write, Text.joinChars_eq_intercalate, ← String.toList_inj, String.toList_ofList, String.toList_intercalate,
    List.map_map]
  rfl

/-- Reading an annotation gives rules that can be written, and those are exactly the rules that are read again as
they were written between commas, in their order and as often. So writing what was read and reading it again
changes nothing. -/
theorem rules_read_as_written (written : String) (rules : List Rule) :
    (∀ r ∈ parse written, r.IsWritable) ∧
      (parse (",".intercalate (rules.map text)) = rules ↔ ∀ r ∈ rules, r.IsWritable) ∧
        parse (",".intercalate ((parse written).map text)) = parse written := by
  have hread : ∀ s, ∀ r ∈ parse s, r.IsWritable := fun s r hr => isWritable_iff.mpr (isLegible_of_mem_parse hr)
  have hback : ∀ written : List Rule, (∀ r ∈ written, r.IsWritable) →
      parse (",".intercalate (written.map text)) = written := by
    intro written hwritten
    rw [← write_eq_intercalate]
    exact parse_write fun r hr => isWritable_iff.mp (hwritten r hr)
  refine ⟨hread written, ⟨fun hsame => ?_, hback rules⟩, hback _ (hread written)⟩
  rw [← hsame]
  exact hread _

example : parse " required , ,max= 5=,=x,a=" =
    [⟨"required", none⟩, ⟨"max", some " 5="⟩, ⟨"", some "x"⟩, ⟨"a", some ""⟩] := by
  decide +kernel

end Rule

namespace Messages

/-! ### What a part of an annotation says -/

/-- Whether a part of an annotation is a rule and a message with an equals sign between them, the first one. -/
def Gives (part rule message : String) : Prop := '=' ∉ rule.toList ∧ part = rule ++ "=" ++ message

/-- What a part gives, if it gives anything. -/
def given? (part : String) : Option (String × String) :=
  match Text.cut '=' part with
  | (rule, some message) => some (rule, message)
  | (_, none) => none

theorem given?_eq_some_iff {part rule message : String} :
    given? part = some (rule, message) ↔ Gives part rule message := by
  constructor
  · intro hgiven
    obtain ⟨hfree, hall⟩ := Text.cutChars_spec '=' part.toList
    cases hafter : (Text.cutChars '=' part.toList).2 with
    | none => simp [given?, Text.cut, hafter] at hgiven
    | some after =>
        rw [hafter] at hall
        obtain ⟨rfl, rfl⟩ : String.ofList (Text.cutChars '=' part.toList).1 = rule ∧ String.ofList after = message := by
          simpa [given?, Text.cut, hafter] using hgiven
        refine ⟨by rwa [String.toList_ofList], ?_⟩
        rw [← String.toList_inj]
        simpa using hall
  · rintro ⟨hfree, rfl⟩
    have hcut := Text.cutChars_append message.toList hfree
    simp [given?, Text.cut, hcut]

/-- A part gives one message for one rule. -/
theorem Gives.unique {part rule other message message' : String} (h : Gives part rule message)
    (h' : Gives part other message') : rule = other ∧ message = message' := by
  have hsame := (given?_eq_some_iff.mpr h).symm.trans (given?_eq_some_iff.mpr h')
  simpa using hsame

/-- What is noted for one part. -/
def noteGiven (messages : Messages) (part : String) : Messages :=
  match given? part with
  | some (rule, message) => messages.note rule message
  | none => messages

theorem parse_eq_foldl (written : String) : parse written = (Text.split ';' written).foldl noteGiven [] := by
  have hstep : ∀ messages part, noteGiven messages part = match Text.cut '=' part with
      | (rule, some message) => messages.note rule message
      | (_, none) => messages := by
    intro messages part
    rcases hcut : Text.cut '=' part with ⟨rule, _ | message⟩ <;> simp [noteGiven, given?, hcut]
  rw [parse]
  split
  · rename_i hempty
    rw [String.isEmpty_iff.mp hempty]
    rfl
  · congr 1
    funext messages part
    exact (hstep messages part).symm

/-! ### The first part for a rule -/

/-- Whether the first part that gives a message for a rule stands at a place and gives that message. -/
structure IsFirst (parts : List String) (place : Nat) (rule message : String) : Prop where
  gives : ∃ part, parts[place]? = some part ∧ Gives part rule message
  first : ∀ earlier < place, ∀ part, parts[earlier]? = some part → ∀ message', ¬ Gives part rule message'

theorem IsFirst.lt_length {parts : List String} {place : Nat} {rule message : String}
    (h : IsFirst parts place rule message) : place < parts.length := by
  obtain ⟨part, hpart, -⟩ := h.gives
  exact (List.getElem?_eq_some_iff.mp hpart).1

/-- Parts that come later do not matter. -/
theorem IsFirst.append {parts : List String} {place : Nat} {rule message : String}
    (h : IsFirst parts place rule message) (more : List String) : IsFirst (parts ++ more) place rule message := by
  have hsame : ∀ i ≤ place, (parts ++ more)[i]? = parts[i]? := fun i hi =>
    List.getElem?_append_left (hi.trans_lt h.lt_length)
  obtain ⟨part, hpart, hgives⟩ := h.gives
  refine ⟨⟨part, by rw [hsame place le_rfl, hpart], hgives⟩, fun earlier hearlier part hpart => ?_⟩
  rw [hsame earlier hearlier.le] at hpart
  exact h.first earlier hearlier part hpart

/-- The first part for a rule gives one message. -/
theorem IsFirst.unique {parts : List String} {place place' : Nat} {rule message message' : String}
    (h : IsFirst parts place rule message) (h' : IsFirst parts place' rule message') : message = message' := by
  obtain ⟨part, hpart, hgives⟩ := h.gives
  obtain ⟨part', hpart', hgives'⟩ := h'.gives
  rcases Nat.lt_trichotomy place place' with hlt | rfl | hgt
  · exact absurd hgives (h'.first place hlt part hpart message)
  · rw [hpart, Option.some.injEq] at hpart'
    subst hpart'
    exact (hgives.unique hgives').2
  · exact absurd hgives' (h.first place' hgt part' hpart' message')

/-- Whether messages are those of the first parts for their rules, in the order of these parts, with one message
for every rule that a part names. -/
structure AreFirstOf (messages : Messages) (parts : List String) : Prop where
  distinct : (messages.map Prod.fst).Nodup
  ordered : ∃ places : List Nat, places.Pairwise (· < ·) ∧
    List.Forall₂ (fun place entry => IsFirst parts place entry.1 entry.2) places messages
  all : ∀ part ∈ parts, ∀ rule message, Gives part rule message → rule ∈ messages.map Prod.fst

theorem AreFirstOf.exists_isFirst {messages : Messages} {parts : List String} (h : messages.AreFirstOf parts)
    {rule message : String} (hentry : (rule, message) ∈ messages) : ∃ place, IsFirst parts place rule message := by
  obtain ⟨places, -, hplaces⟩ := h.ordered
  obtain ⟨i, hi, hget⟩ := List.getElem_of_mem hentry
  obtain ⟨hlength, hall⟩ := List.forall₂_iff_get.mp hplaces
  have hfirst := hall i (by omega) hi
  rw [List.get_eq_getElem, List.get_eq_getElem, hget] at hfirst
  exact ⟨_, hfirst⟩

/-- The message of the first part for a rule is among the messages. -/
theorem AreFirstOf.mem {messages : Messages} {parts : List String} (h : messages.AreFirstOf parts) {place : Nat}
    {rule message : String} (hfirst : IsFirst parts place rule message) : (rule, message) ∈ messages := by
  obtain ⟨part, hpart, hgives⟩ := hfirst.gives
  obtain ⟨⟨_, message'⟩, hentry, rfl⟩ := List.mem_map.mp (h.all part (List.mem_of_getElem? hpart) rule message hgives)
  obtain ⟨place', hfirst'⟩ := h.exists_isFirst hentry
  rwa [hfirst.unique hfirst']

/-- A part that gives nothing, or something for a rule that has its message, changes nothing. -/
theorem AreFirstOf.skip {messages : Messages} {parts : List String} {part : String} (h : messages.AreFirstOf parts)
    (hknown : ∀ rule message, Gives part rule message → rule ∈ messages.map Prod.fst) :
    messages.AreFirstOf (parts ++ [part]) := by
  obtain ⟨places, hplaces, hfirst⟩ := h.ordered
  refine ⟨h.distinct, ⟨places, hplaces, hfirst.imp fun _ _ hone => hone.append [part]⟩, fun before hbefore => ?_⟩
  rcases List.mem_append.mp hbefore with hbefore | hlast
  · exact h.all before hbefore
  · rw [List.mem_singleton.mp hlast]
    exact hknown

/-- A part that gives a message for a new rule adds it at the end. -/
theorem AreFirstOf.add {messages : Messages} {parts : List String} {part rule message : String}
    (h : messages.AreFirstOf parts) (hgives : Gives part rule message) (hnew : rule ∉ messages.map Prod.fst) :
    AreFirstOf (messages ++ [(rule, message)]) (parts ++ [part]) := by
  obtain ⟨places, hplaces, hfirst⟩ := h.ordered
  have hlast : IsFirst (parts ++ [part]) parts.length rule message := by
    refine ⟨⟨part, by simp, hgives⟩, fun earlier hearlier before hbefore message' hgives' => ?_⟩
    rw [List.getElem?_append_left hearlier] at hbefore
    exact hnew (h.all before (List.mem_of_getElem? hbefore) rule message' hgives')
  refine ⟨?_, ⟨places ++ [parts.length], ?_, ?_⟩, fun before hbefore other message' hgives' => ?_⟩
  · rw [List.map_append]
    refine List.nodup_append.mpr ⟨h.distinct, List.nodup_singleton rule, fun a ha b hb hsame => hnew ?_⟩
    obtain rfl : b = rule := List.mem_singleton.mp hb
    rwa [← hsame]
  · refine List.pairwise_append.mpr ⟨hplaces, List.pairwise_singleton _ _, fun place hplace last hend => ?_⟩
    obtain ⟨i, hi, rfl⟩ := List.getElem_of_mem hplace
    obtain ⟨hlength, hget⟩ := List.forall₂_iff_get.mp hfirst
    rw [List.mem_singleton.mp hend]
    exact (hget i hi (by omega)).lt_length
  · exact List.rel_append (hfirst.imp fun _ _ hone => hone.append [part]) (List.Forall₂.cons hlast List.Forall₂.nil)
  · rw [List.map_append, List.mem_append]
    rcases List.mem_append.mp hbefore with hbefore | hend
    · exact Or.inl (h.all before hbefore other message' hgives')
    · rw [List.mem_singleton.mp hend] at hgives'
      exact Or.inr (by simp [(hgives'.unique hgives).1])

theorem any_eq_false_of_not_mem {messages : Messages} {rule : String} (hnew : rule ∉ messages.map Prod.fst) :
    (messages.any fun m => m.1 == rule) = false := by
  rw [List.any_eq_false]
  intro m hm hsame
  exact hnew (List.mem_map.mpr ⟨m, hm, by simpa using hsame⟩)

/-- One more part adds its message at the end, unless its rule was named before. -/
theorem AreFirstOf.noteGiven {messages : Messages} {parts : List String} (h : messages.AreFirstOf parts)
    (part : String) : (messages.noteGiven part).AreFirstOf (parts ++ [part]) := by
  rw [Messages.noteGiven]
  cases hgiven : given? part with
  | none =>
      refine h.skip fun rule message hgives => ?_
      rw [given?_eq_some_iff.mpr hgives] at hgiven
      cases hgiven
  | some entry =>
      obtain ⟨rule, message⟩ := entry
      have hgives := given?_eq_some_iff.mp hgiven
      dsimp only
      by_cases hknown : rule ∈ messages.map Prod.fst
      · have hany : (messages.any fun m => m.1 == rule) = true := by simpa using hknown
        rw [note_of_any message hany]
        exact h.skip fun other message' hgives' => (hgives.unique hgives').1 ▸ hknown
      · rw [note, any_eq_false_of_not_mem hknown, if_neg Bool.false_ne_true]
        exact h.add hgives hknown

/-- Every part that is read keeps the messages those of the first parts. -/
theorem areFirstOf_foldl (parts : List String) : (parts.foldl noteGiven []).AreFirstOf parts := by
  induction parts using List.reverseRecOn with
  | nil => exact ⟨List.nodup_nil, ⟨[], List.Pairwise.nil, List.Forall₂.nil⟩, by simp⟩
  | append_singleton parts part ih =>
      rw [List.foldl_concat]
      exact ih.noteGiven part

theorem areFirstOf_parse (written : String) : (parse written).AreFirstOf (Text.split ';' written) := by
  rw [parse_eq_foldl]
  exact areFirstOf_foldl _

/-! ### Messages that are written -/

/-- Messages as an annotation can say them: for different rules, with no semicolon in either, and no equals sign
in a rule. -/
structure AreWritable (messages : Messages) : Prop where
  distinct : (messages.map Prod.fst).Nodup
  rules : ∀ entry ∈ messages, ';' ∉ entry.1.toList ∧ '=' ∉ entry.1.toList
  texts : ∀ entry ∈ messages, ';' ∉ entry.2.toList

/-- A message as it is written. -/
def entryText (entry : String × String) : String := entry.1 ++ "=" ++ entry.2

/-- What is read can be written. -/
theorem areWritable_parse (written : String) : (parse written).AreWritable := by
  have hread := areFirstOf_parse written
  have hfree : ∀ entry ∈ parse written, ';' ∉ (entryText entry).toList ∧ '=' ∉ entry.1.toList := by
    intro entry hentry
    obtain ⟨place, hfirst⟩ := hread.exists_isFirst hentry
    obtain ⟨part, hpart, hequals, rfl⟩ := hfirst.gives
    exact ⟨Text.not_mem_of_mem_split (List.mem_of_getElem? hpart), hequals⟩
  refine ⟨hread.distinct, fun entry hentry => ?_, fun entry hentry hsemicolon => ?_⟩
  · exact ⟨fun hsemicolon => (hfree entry hentry).1 (by simp [entryText, hsemicolon]), (hfree entry hentry).2⟩
  · exact (hfree entry hentry).1 (by simp [entryText, hsemicolon])

/-- Messages for rules that were not named before are all noted. -/
theorem foldl_noteGiven {messages known : Messages} (hequals : ∀ entry ∈ messages, '=' ∉ entry.1.toList)
    (hdistinct : ((known ++ messages).map Prod.fst).Nodup) :
    (messages.map entryText).foldl noteGiven known = known ++ messages := by
  induction messages generalizing known with
  | nil => rw [List.map_nil, List.foldl_nil, List.append_nil]
  | cons entry rest ih =>
      have hgiven : given? (entryText entry) = some entry :=
        given?_eq_some_iff.mpr ⟨hequals entry List.mem_cons_self, rfl⟩
      have hnew : entry.1 ∉ known.map Prod.fst := by
        rw [List.map_append, List.map_cons] at hdistinct
        exact fun hknown => (List.nodup_append.mp hdistinct).2.2 _ hknown _ List.mem_cons_self rfl
      have hnoted : noteGiven known (entryText entry) = known ++ [entry] := by
        rw [noteGiven, hgiven]
        dsimp only
        rw [note, any_eq_false_of_not_mem hnew, if_neg Bool.false_ne_true]
      rw [List.map_cons, List.foldl_cons, hnoted, ih (fun e he => hequals e (List.mem_cons_of_mem entry he)),
        List.append_assoc, List.singleton_append]
      rwa [List.append_assoc, List.singleton_append]

/-- Messages that can be written are read as they were written. -/
theorem parse_intercalate {messages : Messages} (h : messages.AreWritable) :
    parse (";".intercalate (messages.map entryText)) = messages := by
  cases messages with
  | nil => rfl
  | cons entry rest =>
      have hsplit : Text.split ';' (";".intercalate ((entry :: rest).map entryText)) =
          (entry :: rest).map entryText := by
        refine Text.split_intercalate (by simp) fun part hpart => ?_
        obtain ⟨e, he, rfl⟩ := List.mem_map.mp hpart
        simp [entryText, (h.rules e he).1, h.texts e he]
      rw [parse_eq_foldl, hsplit, foldl_noteGiven (fun e he => (h.rules e he).2) h.distinct, List.nil_append]

/-- The message for a rule is that of the first part for it, and the fallback where no part names the rule. -/
def Resolves (parts : List String) (messages : Messages) : Prop :=
  ∀ rule, (∀ place message, IsFirst parts place rule message → ∀ fallback, messages.resolve rule fallback = message) ∧
    ((∀ fallback, messages.resolve rule fallback = fallback) ↔ ∀ part ∈ parts, ∀ message, ¬ Gives part rule message)

theorem AreFirstOf.resolves {messages : Messages} {parts : List String} (h : messages.AreFirstOf parts) :
    Resolves parts messages := by
  have hfound : ∀ rule place message, IsFirst parts place rule message → messages.lookup rule = some message :=
    fun rule place message hfirst => (lookup_eq_some_iff_mem h.distinct).mpr (h.mem hfirst)
  refine fun rule => ⟨fun place message hfirst fallback => ?_, fun hfallback part hpart message hgives => ?_,
    fun hnone fallback => ?_⟩
  · rw [resolve, hfound rule place message hfirst, Option.getD_some]
  · -- The rule is named, so there is a message for it, and that cannot be two fallbacks at once.
    obtain ⟨⟨_, message'⟩, hentry, rfl⟩ := List.mem_map.mp (h.all part hpart rule message hgives)
    have hlookup := (lookup_eq_some_iff_mem h.distinct).mpr hentry
    simp only [resolve, hlookup, Option.getD_some] at hfallback
    exact absurd ((hfallback "").symm.trans (hfallback "=")) (by decide)
  · cases hlookup : messages.lookup rule with
    | none => rw [resolve, hlookup, Option.getD_none]
    | some message =>
        obtain ⟨place, hfirst⟩ := h.exists_isFirst ((lookup_eq_some_iff_mem h.distinct).mp hlookup)
        obtain ⟨part, hpart, hgives⟩ := hfirst.gives
        exact absurd hgives (hnone part (List.mem_of_getElem? hpart) message)

end Messages

/-- The messages of a field are those of its annotation. -/
theorem Catalogue.messages_of_describeField {c : Catalogue} {f : Field} {d : Descriptor}
    (hd : c.describeField f = .ok d) : d.messages = (f.annotations.messages.map Messages.parse).getD [] := by
  rw [describeField] at hd
  dsimp only at hd
  split at hd
  · cases hd
    rfl
  · cases hd

namespace Messages

/-- Reading an annotation gives one message for every rule that a part names, that of the first such part as it
stands there, in the order of those parts, and all of it can be written. Exactly messages that can be written are
read again as they were written between semicolons. The message for a rule of a field is that of the first part
that names the rule, and the fallback exactly if no part does. -/
theorem messages_read_as_written (written : String) (messages : Messages) :
    ((parse written).AreFirstOf (Text.split ';' written) ∧ (parse written).AreWritable) ∧
      (parse (";".intercalate (messages.map entryText)) = messages ↔ messages.AreWritable) ∧
        Resolves (Text.split ';' written) (parse written) ∧
          ∀ (c : Catalogue) (f : Field) (d : Descriptor), c.describeField f = .ok d →
            f.annotations.messages = some written → Resolves (Text.split ';' written) d.messages := by
  have hread := areFirstOf_parse written
  refine ⟨⟨hread, areWritable_parse written⟩, ⟨fun hsame => ?_, parse_intercalate⟩, hread.resolves,
    fun c f d hd hwritten => ?_⟩
  · rw [← hsame]
    exact areWritable_parse _
  · rw [Catalogue.messages_of_describeField hd, hwritten, Option.map_some, Option.getD_some]
    exact hread.resolves

/-- A level with two messages for one rule. -/
def levelField : Field :=
  ⟨"level", .int, none, none, { Annotations.none with messages := some "min=too low;min=low" }, none,
    ⟨none, none, none⟩⟩

/-- Of the two messages for a level the first counts. -/
theorem messages_read_as_written_level :
    ∃ d, (Catalogue.mk [] []).describeField levelField = .ok d ∧
      Resolves (Text.split ';' "min=too low;min=low") d.messages := by
  obtain ⟨-, -, -, hfield⟩ := messages_read_as_written "min=too low;min=low" []
  have hdescribed : ∃ d, (Catalogue.mk [] []).describeField levelField = .ok d := ⟨_, rfl⟩
  obtain ⟨d, hd⟩ := hdescribed
  exact ⟨d, hd, hfield _ levelField d hd rfl⟩

example : parse "min=a=b;max;= ;min=c" = [("min", "a=b"), ("", " ")] := by decide +kernel

end Messages
end Intake
