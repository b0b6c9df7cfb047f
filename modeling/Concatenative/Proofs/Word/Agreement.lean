import Concatenative.Proofs.Record
import Concatenative.Word.Agreement
import Mathlib.Data.List.Forall2

/-!
# Agreement and identity

Agreement of words is reflexive and transitive, but not symmetric, because a dict agrees with every
dict that has more entries. Two words agree in both directions if and only if they are identical up
to the order of the entries of their dicts. So agreement is identity where there are no dicts.
-/

namespace Concatenative
namespace Word

/-- Related sequences are related in another way if items in the same places are. -/
theorem forall₂_of_mem
    {α β : Type}
    {R S : α → β → Prop}
    {as : List α}
    {bs : List β}
    (related : List.Forall₂ R as bs)
    (implies : ∀ a ∈ as, ∀ b ∈ bs, R a b → S a b) :
    List.Forall₂ S as bs := by
  rw [List.forall₂_iff_zip] at related ⊢
  refine ⟨related.1, fun {a b} present => ?_⟩
  obtain ⟨aPresent, bPresent⟩ := List.of_mem_zip present
  exact implies a aPresent b bPresent (related.2 present)

/-- Relations of sequences compose if they do at the items in the middle. -/
theorem forall₂_comp_of_mem
    {α β γ : Type}
    {R : α → β → Prop}
    {S : β → γ → Prop}
    {T : α → γ → Prop}
    {as : List α}
    {bs : List β}
    {cs : List γ}
    (earlier : List.Forall₂ R as bs)
    (later : List.Forall₂ S bs cs)
    (composes : ∀ b ∈ bs, ∀ a c, R a b → S b c → T a c) :
    List.Forall₂ T as cs := by
  induction earlier generalizing cs with
  | nil =>
      cases later
      exact .nil
  | cons related _ inductionHypothesis =>
      rw [List.forall_mem_cons] at composes
      cases later with
      | cons relatedLater rest =>
          refine .cons (composes.1 _ _ related relatedLater) ?_
          exact inductionHypothesis rest composes.2

/-! ## Agreement without changing sides -/

theorem agreeFrom_iff (changed : Bool) (as bs : List Word) :
    agreeFrom changed as bs = true ↔
      List.Forall₂ (fun a b => agreesFrom changed a b = true) as bs := by
  induction as generalizing bs with
  | nil => cases bs <;> simp [agreeFrom]
  | cons a as inductionHypothesis => cases bs <;> simp [agreeFrom, inductionHypothesis]

theorem foundIn_iff (entries others : Record Word) :
    foundIn entries others = true ↔
      ∀ entry ∈ entries, ∃ other,
        Record.get? others entry.1 = some other ∧ agreesFrom true entry.2 other = true := by
  induction entries with
  | nil => simp [foundIn]
  | cons entry rest inductionHypothesis =>
      obtain ⟨name, value⟩ := entry
      rw [foundIn, Bool.and_eq_true, inductionHypothesis, List.forall_mem_cons]
      refine and_congr_left' ?_
      cases found : Record.get? others name <;> simp [entryFoundIn, found]

theorem findsIn_iff (entries : Record Word) (other : String × Word) :
    findsIn entries other = true ↔
      ∃ value, Record.get? entries other.1 = some value ∧
        agreesFrom false value other.2 = true := by
  induction entries with
  | nil => simp [findsIn]
  | cons entry rest inductionHypothesis =>
      obtain ⟨key, value⟩ := entry
      rw [findsIn, Record.get?_cons]
      by_cases same : key = other.1 <;> simp [entryFinds, same, inductionHypothesis]

/-- Sequences are compared the other way round if their items are. -/
theorem agreeFrom_not
    {changed : Bool}
    {as : List Word}
    (each : ∀ a ∈ as, ∀ b, agreesFrom (!changed) a b = agreesFrom changed b a)
    (bs : List Word) :
    agreeFrom (!changed) as bs = agreeFrom changed bs as := by
  induction as generalizing bs with
  | nil => cases bs <;> rfl
  | cons a as inductionHypothesis =>
      rw [List.forall_mem_cons] at each
      cases bs with
      | nil => rfl
      | cons b bs => rw [agreeFrom, agreeFrom, each.1, inductionHypothesis each.2]

/-- Changing the sides is comparing the other way round. -/
theorem agreesFrom_not (changed : Bool) (first second : Word) :
    agreesFrom (!changed) first second = agreesFrom changed second first := by
  induction first generalizing changed second with
  | atom | int | hex | str => cases second <;> simp [agreesFrom, eq_comm]
  | list as inductionHypothesis =>
      cases second with
      | list bs =>
          rw [agreesFrom, agreesFrom]
          exact agreeFrom_not (fun a present => inductionHypothesis a present changed) bs
      | atom | int | hex | str | dict => rfl
  | dict as inductionHypothesis =>
      cases second with
      | dict bs =>
          rw [agreesFrom, agreesFrom, Bool.eq_iff_iff]
          cases changed with
          | true =>
              simp only [Bool.not_true, Bool.false_eq_true, if_false, if_true]
              rw [foundIn_iff, List.all_eq_true]
              refine forall₂_congr fun entry present => ?_
              rw [findsIn_iff]
              simp only [← inductionHypothesis entry present false, Bool.not_false]
          | false =>
              simp only [Bool.not_false, Bool.false_eq_true, if_false, if_true]
              rw [foundIn_iff, List.all_eq_true]
              refine forall₂_congr fun entry _ => ?_
              rw [findsIn_iff]
              refine exists_congr fun value => and_congr_right fun found => ?_
              have swapped := inductionHypothesis _ (Record.mem_of_get? found) true entry.2
              rw [← swapped, Bool.not_true]
      | atom | int | hex | str | list => rfl

/-- How two words agree: each value of the first dict is agreed with by what the second one has in
its place. -/
inductive Agreement : Word → Word → Prop where
  | atom (name : String) : Agreement (.atom name) (.atom name)
  | int (value : Int) : Agreement (.int value) (.int value)
  | hex (value : Int) : Agreement (.hex value) (.hex value)
  | str (text : String) : Agreement (.str text) (.str text)
  | list {as bs : List Word}
      (each : List.Forall₂ (fun a b => a.agrees b = true) as bs) :
      Agreement (.list as) (.list bs)
  | dict {entries others : Record Word}
      (found : ∀ entry ∈ entries, ∃ other,
        Record.get? others entry.1 = some other ∧ other.agrees entry.2 = true) :
      Agreement (.dict entries) (.dict others)

theorem agrees_list_iff (as bs : List Word) :
    (list as).agrees (list bs) = true ↔ List.Forall₂ (fun a b => a.agrees b = true) as bs :=
  agreeFrom_iff false as bs

theorem agrees_dict_iff (entries others : Record Word) :
    (dict entries).agrees (dict others) = true ↔
      ∀ entry ∈ entries, ∃ other,
        Record.get? others entry.1 = some other ∧ other.agrees entry.2 = true := by
  have swapped (value other : Word) : agreesFrom true value other = other.agrees value :=
    agreesFrom_not false value other
  refine (foundIn_iff entries others).trans ?_
  simp only [swapped]

/-- Two words agree in one of these ways. -/
theorem agrees_iff (first second : Word) : first.agrees second = true ↔ Agreement first second := by
  constructor
  · intro agree
    cases first with
    | list as =>
        cases second with
        | list bs => exact .list ((agrees_list_iff as bs).mp agree)
        | atom | int | hex | str | dict => cases agree
    | dict entries =>
        cases second with
        | dict others => exact .dict ((agrees_dict_iff entries others).mp agree)
        | atom | int | hex | str | list => cases agree
    | atom | int | hex | str =>
        cases second <;>
          simp only [agrees, agreesFrom, decide_eq_true_eq, Bool.false_eq_true] at agree
        subst agree
        constructor
  · intro agreement
    cases agreement with
    | list each => exact (agrees_list_iff _ _).mpr each
    | dict found => exact (agrees_dict_iff _ _).mpr found
    | atom | int | hex | str => exact decide_eq_true rfl

theorem agrees_trans
    {first second third : Word}
    (earlier : first.agrees second = true)
    (later : second.agrees third = true) :
    first.agrees third = true := by
  -- The word in the middle stays there when the sides change.
  induction second generalizing first third with
  | atom | int | hex | str =>
      cases (agrees_iff _ _).mp earlier
      exact later
  | list bs inductionHypothesis =>
      cases (agrees_iff _ _).mp earlier with
      | list eachEarlier =>
          cases (agrees_iff _ _).mp later with
          | list eachLater =>
              rw [agrees_list_iff]
              refine forall₂_comp_of_mem eachEarlier eachLater ?_
              exact fun b present _ _ => inductionHypothesis b present
  | dict others inductionHypothesis =>
      cases (agrees_iff _ _).mp earlier with
      | dict foundEarlier =>
          cases (agrees_iff _ _).mp later with
          | dict foundLater =>
              rw [agrees_dict_iff]
              intro entry present
              obtain ⟨middle, inMiddle, agreeEarlier⟩ := foundEarlier entry present
              have member := Record.mem_of_get? inMiddle
              obtain ⟨last, inLast, agreeLater⟩ := foundLater _ member
              exact ⟨last, inLast, inductionHypothesis _ member agreeLater agreeEarlier⟩

/-! ## Words in which names are distinct -/

/-- The names of a dict are distinct, at every depth. -/
inductive Distinct : Word → Prop where
  | atom (name : String) : Distinct (.atom name)
  | int (value : Int) : Distinct (.int value)
  | hex (value : Int) : Distinct (.hex value)
  | str (text : String) : Distinct (.str text)
  | list {items : List Word} (each : ∀ item ∈ items, Distinct item) : Distinct (.list items)
  | dict {entries : Record Word}
      (names : (Record.names entries).Nodup)
      (each : ∀ entry ∈ entries, Distinct entry.2) :
      Distinct (.dict entries)

theorem distinct_list_iff (items : List Word) :
    (list items).Distinct ↔ ∀ item ∈ items, item.Distinct := by
  refine ⟨fun distinct => ?_, .list⟩
  cases distinct with
  | list each => exact each

theorem distinct_dict_iff (entries : Record Word) :
    (dict entries).Distinct ↔
      (Record.names entries).Nodup ∧ ∀ entry ∈ entries, entry.2.Distinct := by
  refine ⟨fun distinct => ?_, fun distinct => .dict distinct.1 distinct.2⟩
  cases distinct with
  | dict names each => exact ⟨names, each⟩

theorem Distinct.agrees {word : Word} (distinct : word.Distinct) : word.agrees word = true := by
  induction distinct with
  | atom | int | hex | str => exact decide_eq_true rfl
  | list _ inductionHypothesis =>
      rw [agrees_list_iff, List.forall₂_same]
      exact inductionHypothesis
  | dict names _ inductionHypothesis =>
      rw [agrees_dict_iff]
      intro entry present
      exact ⟨entry.2, Record.get?_of_mem names present, inductionHypothesis entry present⟩

/-- Items agree one by one with themselves. -/
theorem Distinct.forall₂_agrees
    {items : List Word}
    (distinct : ∀ item ∈ items, item.Distinct) :
    List.Forall₂ (fun a b => a.agrees b = true) items items :=
  List.forall₂_same.mpr fun item present => (distinct item present).agrees

/-- A dict agrees with one that has its entries, in any order. -/
theorem Distinct.agrees_of_perm
    {entries others : Record Word}
    (distinct : (Word.dict others).Distinct)
    (order : entries.Perm others) :
    (Word.dict entries).agrees (Word.dict others) = true := by
  obtain ⟨names, each⟩ := (distinct_dict_iff others).mp distinct
  rw [agrees_dict_iff]
  intro entry present
  have member := order.mem_iff.mp present
  exact ⟨entry.2, Record.get?_of_mem names member, (each entry member).agrees⟩

/-! ## Words that are the same up to order -/

/-- Two words are identical up to the order of the entries of their dicts, at every depth: one is
made into the other by putting the entries of dicts into another order, inside lists and dicts
too. -/
inductive Reordered : Word → Word → Prop where
  | refl (word : Word) : Reordered word word
  | trans {first second third : Word}
      (earlier : Reordered first second)
      (later : Reordered second third) :
      Reordered first third
  /-- The entries of a dict change their order. -/
  | order {entries others : Record Word} (perm : entries.Perm others) :
      Reordered (.dict entries) (.dict others)
  /-- An item of a list changes. -/
  | item {first second : Word} (before after : List Word) (change : Reordered first second) :
      Reordered (.list (before ++ first :: after)) (.list (before ++ second :: after))
  /-- The value of an entry of a dict changes. -/
  | value {first second : Word} (before : Record Word) (name : String) (after : Record Word)
      (change : Reordered first second) :
      Reordered (.dict (before ++ (name, first) :: after))
        (.dict (before ++ (name, second) :: after))

namespace Reordered

variable {first second : Word}

theorem distinct (reordered : Reordered first second) (distinct : first.Distinct) :
    second.Distinct := by
  induction reordered with
  | refl => exact distinct
  | trans _ _ earlier later => exact later (earlier distinct)
  | order perm =>
      rw [distinct_dict_iff] at distinct ⊢
      refine ⟨(perm.map Prod.fst).nodup distinct.1, fun entry present => ?_⟩
      exact distinct.2 entry (perm.mem_iff.mpr present)
  | item before after _ change =>
      rw [distinct_list_iff, List.forall_mem_append, List.forall_mem_cons] at distinct ⊢
      exact ⟨distinct.1, change distinct.2.1, distinct.2.2⟩
  | value before name after _ change =>
      rw [distinct_dict_iff, List.forall_mem_append, List.forall_mem_cons] at distinct ⊢
      obtain ⟨names, beforeDistinct, valueDistinct, afterDistinct⟩ := distinct
      refine ⟨?_, beforeDistinct, change valueDistinct, afterDistinct⟩
      simpa [Record.names] using names

/-- The items of a list may change one by one. -/
theorem each
    {as bs : List Word}
    (changes : List.Forall₂ Reordered as bs)
    (before : List Word) :
    Reordered (.list (before ++ as)) (.list (before ++ bs)) := by
  induction changes generalizing before with
  | nil => exact .refl _
  | @cons a b as bs change _ inductionHypothesis =>
      have rest := inductionHypothesis (before ++ [b])
      rw [List.append_assoc, List.append_assoc] at rest
      exact .trans (.item before as change) rest

/-- The values of a dict may change one by one. -/
theorem mapValues
    {entries : Record Word}
    (change : String → Word → Word)
    (changes : ∀ entry ∈ entries, Reordered entry.2 (change entry.1 entry.2))
    (before : Record Word) :
    Reordered (.dict (before ++ entries))
      (.dict (before ++ entries.map fun entry => (entry.1, change entry.1 entry.2))) := by
  induction entries generalizing before with
  | nil => exact .refl _
  | cons entry later inductionHypothesis =>
      obtain ⟨name, value⟩ := entry
      rw [List.forall_mem_cons] at changes
      have rest := inductionHypothesis changes.2 (before ++ [(name, change name value)])
      rw [List.append_assoc, List.append_assoc] at rest
      exact .trans (.value before name later changes.1) rest

/-- Dicts with the same names are identical up to order if what they give to each name is. -/
theorem dict_of_get?
    {entries others : Record Word}
    (names : (Record.names entries).Nodup)
    (otherNames : (Record.names others).Nodup)
    (forth : ∀ name value, Record.get? entries name = some value →
      ∃ other, Record.get? others name = some other ∧ Reordered value other)
    (back : ∀ name, Record.get? entries name = none → Record.get? others name = none) :
    Reordered (.dict entries) (.dict others) := by
  -- The entries of the second dict, in the order of the first one.
  let value (name : String) (old : Word) : Word := (Record.get? others name).getD old
  have changes : ∀ entry ∈ entries, Reordered entry.2 (value entry.1 entry.2) := by
    intro entry present
    obtain ⟨other, inOthers, change⟩ := forth _ _ (Record.get?_of_mem names present)
    simpa only [value, inOthers, Option.getD_some] using change
  refine .trans (.mapValues value changes []) (.order ?_)
  rw [List.nil_append]
  refine Record.perm_of_get? ?_ otherNames fun name => ?_
  · rwa [Record.names_mapValues]
  · rw [Record.get?_mapValues]
    cases found : Record.get? entries name with
    | none => rw [back name found, Option.map_none]
    | some old =>
        obtain ⟨other, inOthers, -⟩ := forth name old found
        simp only [value, inOthers, Option.map_some, Option.getD_some]

end Reordered

/-- Lists agree if they differ in one item and the items agree. -/
theorem agrees_item
    {first second : Word}
    {before after : List Word}
    (distinct : (list (before ++ first :: after)).Distinct)
    (agree : first.agrees second = true) :
    (list (before ++ first :: after)).agrees (list (before ++ second :: after)) = true := by
  rw [distinct_list_iff, List.forall_mem_append, List.forall_mem_cons] at distinct
  rw [agrees_list_iff]
  exact List.rel_append (Distinct.forall₂_agrees distinct.1)
    (.cons agree (Distinct.forall₂_agrees distinct.2.2))

/-- Dicts agree if they differ in one value and the values agree the other way round. -/
theorem agrees_value
    {first second : Word}
    {before after : Record Word}
    {name : String}
    (distinct : (dict (before ++ (name, second) :: after)).Distinct)
    (agree : second.agrees first = true) :
    (dict (before ++ (name, first) :: after)).agrees (dict (before ++ (name, second) :: after)) =
      true := by
  obtain ⟨names, each⟩ := (distinct_dict_iff _).mp distinct
  rw [agrees_dict_iff]
  -- What is said of the second dict is kept as it is while the first one is gone through.
  generalize whole : before ++ (name, second) :: after = others at names each
  have kept (entry : String × Word) (present : entry ∈ others) :
      ∃ other, Record.get? others entry.1 = some other ∧ other.agrees entry.2 = true :=
    ⟨entry.2, Record.get?_of_mem names present, (each entry present).agrees⟩
  have changed : Record.get? others name = some second :=
    Record.get?_of_mem names (by simp [← whole])
  rw [List.forall_mem_append, List.forall_mem_cons]
  refine ⟨fun entry present => kept entry ?_, ⟨second, changed, agree⟩,
    fun entry present => kept entry ?_⟩
  · rw [← whole]
    exact List.mem_append_left _ present
  · rw [← whole]
    exact List.mem_append_right _ (List.mem_cons_of_mem _ present)

/-- A word and one that it is made into agree in both directions. -/
theorem Reordered.agrees
    {first second : Word}
    (reordered : first.Reordered second)
    (distinct : first.Distinct) :
    first.agrees second = true ∧ second.agrees first = true := by
  -- Both directions at once, because the sides change in a dict.
  induction reordered with
  | refl => exact ⟨distinct.agrees, distinct.agrees⟩
  | trans earlier _ earlierAgree laterAgree =>
      obtain ⟨forth, back⟩ := earlierAgree distinct
      obtain ⟨further, backToo⟩ := laterAgree (earlier.distinct distinct)
      exact ⟨agrees_trans forth further, agrees_trans backToo back⟩
  | order perm =>
      have distinctToo := (Reordered.order perm).distinct distinct
      exact ⟨distinctToo.agrees_of_perm perm, distinct.agrees_of_perm perm.symm⟩
  | @item first second before after change agree =>
      have distinctToo := (Reordered.item before after change).distinct distinct
      have itemDistinct := (distinct_list_iff _).mp distinct first (by simp)
      obtain ⟨forth, back⟩ := agree itemDistinct
      exact ⟨agrees_item distinct forth, agrees_item distinctToo back⟩
  | @value first second before name after change agree =>
      have distinctToo := (Reordered.value before name after change).distinct distinct
      have valueDistinct := ((distinct_dict_iff _).mp distinct).2 (name, first) (by simp)
      obtain ⟨forth, back⟩ := agree valueDistinct
      exact ⟨agrees_value distinctToo back, agrees_value distinct forth⟩

/-- Words that agree in both directions are identical up to order. -/
theorem Distinct.reordered
    {first second : Word}
    (firstDistinct : first.Distinct)
    (secondDistinct : second.Distinct)
    (forth : first.agrees second = true)
    (back : second.agrees first = true) :
    first.Reordered second := by
  induction firstDistinct generalizing second with
  | atom | int | hex | str =>
      cases (agrees_iff _ _).mp forth
      exact .refl _
  | @list items _ inductionHypothesis =>
      cases (agrees_iff _ _).mp forth with
      | @list _ others eachForth =>
          rw [distinct_list_iff] at secondDistinct
          have eachBack := (agrees_list_iff others items).mp back
          have eachBoth := List.Forall₂.mp (fun _ _ => And.intro) eachForth eachBack.flip
          refine .each (forall₂_of_mem eachBoth ?_) []
          intro item itemPresent other otherPresent agree
          have otherDistinct := secondDistinct other otherPresent
          exact inductionHypothesis item itemPresent otherDistinct agree.1 agree.2
  | @dict entries names each inductionHypothesis =>
      cases (agrees_iff _ _).mp forth with
      | @dict _ others found =>
          rw [agrees_dict_iff] at back
          obtain ⟨otherNames, otherEach⟩ := (distinct_dict_iff others).mp secondDistinct
          refine .dict_of_get? names otherNames ?_ ?_
          · intro name value inEntries
            have present := Record.mem_of_get? inEntries
            obtain ⟨other, inOthers, otherAgrees⟩ := found _ present
            have member := Record.mem_of_get? inOthers
            obtain ⟨same, inEntriesToo, sameAgrees⟩ := back _ member
            cases inEntries.symm.trans inEntriesToo
            exact ⟨other, inOthers,
              inductionHypothesis _ present (otherEach _ member) sameAgrees otherAgrees⟩
          · intro name missing
            cases inOthers : Record.get? others name with
            | none => rfl
            | some other =>
                obtain ⟨old, inEntries, -⟩ := back _ (Record.mem_of_get? inOthers)
                rw [missing] at inEntries
                cases inEntries

/-! ## Words without dicts -/

/-- There is no dict in the word, at any depth. -/
inductive Dictless : Word → Prop where
  | atom (name : String) : Dictless (.atom name)
  | int (value : Int) : Dictless (.int value)
  | hex (value : Int) : Dictless (.hex value)
  | str (text : String) : Dictless (.str text)
  | list {items : List Word} (each : ∀ item ∈ items, Dictless item) : Dictless (.list items)

theorem Dictless.distinct {word : Word} (dictless : word.Dictless) : word.Distinct := by
  induction dictless with
  | atom name => exact .atom name
  | int value => exact .int value
  | hex value => exact .hex value
  | str text => exact .str text
  | list _ inductionHypothesis => exact .list inductionHypothesis

/-- A word without dicts agrees with itself alone. -/
theorem Dictless.agrees_iff_eq {first : Word} (dictless : first.Dictless) (second : Word) :
    first.agrees second = true ↔ first = second := by
  refine ⟨fun agree => ?_, ?_⟩
  · induction dictless generalizing second with
    | atom | int | hex | str =>
        cases (agrees_iff _ _).mp agree
        rfl
    | list _ inductionHypothesis =>
        cases (agrees_iff _ _).mp agree with
        | list each =>
            rw [list.injEq, ← List.forall₂_eq_eq_eq]
            refine forall₂_of_mem each ?_
            exact fun item present other _ => inductionHypothesis item present other
  · rintro rfl
    exact dictless.distinct.agrees

/-- Agreement of words is a preorder, and two words agree in both directions if and only if they are
identical up to the order of the entries of their dicts, at every depth. Where there are no dicts,
words agree if and only if they are identical. -/
theorem agreement_is_preorder :
    (∀ word : Word, word.Distinct → word.agrees word = true) ∧
    (∀ first second third : Word,
      first.agrees second = true → second.agrees third = true → first.agrees third = true) ∧
    (∀ first second : Word, first.Distinct → second.Distinct →
      (first.agrees second = true ∧ second.agrees first = true ↔ first.Reordered second)) ∧
    ∀ first second : Word, first.Dictless → (first.agrees second = true ↔ first = second) := by
  refine ⟨fun _ => Distinct.agrees, fun _ _ _ => agrees_trans, ?_, ?_⟩
  · intro first second firstDistinct secondDistinct
    refine ⟨fun both => firstDistinct.reordered secondDistinct both.1 both.2, ?_⟩
    exact fun reordered => reordered.agrees firstDistinct
  · exact fun first second dictless => dictless.agrees_iff_eq second

/-- The third dict has an entry more than the others and within another entry one less. -/
theorem agreement_is_preorder_nested :
    let first : Word :=
      .dict [("a", .dict [("x", .int 1), ("y", .int 2)]), ("b", .list [.dict []])]
    let second : Word :=
      .dict [("b", .list [.dict []]), ("a", .dict [("y", .int 2), ("x", .int 1)])]
    let third : Word :=
      .dict [("b", .list [.dict []]), ("c", .hex 3), ("a", .dict [("x", .int 1)])]
    let code : Word := .list [.atom "x", .list [.int 1]]
    first.Distinct ∧ second.Distinct ∧ code.Dictless ∧
      first.agrees first = true ∧
      (first.agrees second = true ∧ second.agrees first = true) ∧
      first.Reordered second ∧
      second.agrees third = true ∧ first.agrees third = true ∧ third.agrees first = false ∧
      (code.agrees third = true ↔ code = third) := by
  intro first second third code
  have firstDistinct : first.Distinct := by
    simp [first, distinct_dict_iff, distinct_list_iff, Record.names, Distinct.int]
  have secondDistinct : second.Distinct := by
    simp [second, distinct_dict_iff, distinct_list_iff, Record.names, Distinct.int]
  have dictless : code.Dictless := by
    refine .list ?_
    simp [Dictless.atom, Dictless.int, Dictless.list]
  have both : first.agrees second = true ∧ second.agrees first = true := by decide
  have laterAgree : second.agrees third = true := by decide
  obtain ⟨reflexive, transitive, reordered, identical⟩ := agreement_is_preorder
  exact ⟨firstDistinct, secondDistinct, dictless, reflexive first firstDistinct, both,
    (reordered first second firstDistinct secondDistinct).mp both, laterAgree,
    transitive first second third both.1 laterAgree, by decide, identical code third dictless⟩

end Word
end Concatenative
