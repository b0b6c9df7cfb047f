import Concatenative.Machine.Question
import Concatenative.Proofs.Dict

/-!
# Words on dicts

The words `dict`, `put`, `get` and `keys` treat a dict as a finite map that remembers the order of
its names. A dict that is written down and one that is made by setting its names in turn are the
same.
-/

namespace Concatenative

/-! ## Operands -/

namespace Word

/-- The words by which an entry is asked for. -/
inductive Asks (name : String) : Word → Prop
  | str : Asks name (.str name)
  | atom : Asks name (.atom name)

theorem Asks.entryName_eq
    {name : String}
    {word : Word}
    (asks : Asks name word) :
    word.entryName = .ok name := by
  cases asks with
  | str => rfl
  | atom => rfl

/-- The operands of `put` for some pairs, those for the first pair on top. -/
inductive Puts : List (String × Word) → List Word → Prop
  | nil : Puts [] []
  | cons {name : String} {key value : Word} {later : List (String × Word)} {operands : List Word}
      (asks : Asks name key)
      (others : Puts later operands) :
      Puts ((name, value) :: later) (key :: value :: operands)

/-- The words are triples of an atom, an equality sign and any word. -/
def InTriples (items : List Word) : Prop :=
  items.length % 3 = 0 ∧
    ∀ count < items.length / 3,
      (∃ name, items[3 * count]? = some (.atom name)) ∧
        items[3 * count + 1]? = some (.atom "=")

theorem inTriples_cons (first second third : Word) (rest : List Word) :
    InTriples (first :: second :: third :: rest) ↔
      (∃ name, first = .atom name) ∧ second = .atom "=" ∧ InTriples rest := by
  have width : (first :: second :: third :: rest).length = rest.length + 3 := rfl
  have beyond (count : Nat) : 3 * (count + 1) = 3 * count + 1 + 1 + 1 := by omega
  rw [InTriples, InTriples, width, Nat.add_mod_right, Nat.add_div_right _ (by omega),
    Nat.forall_lt_succ_left]
  simp only [beyond, Nat.mul_zero, Nat.zero_add, List.getElem?_cons_zero, List.getElem?_cons_succ,
    Option.some.injEq]
  rw [and_left_comm, and_assoc]

theorem inTriples_lines (lines : List (String × Word)) : InTriples (lines.flatMap pairWords) := by
  induction lines with
  | nil => exact ⟨rfl, fun count impossible => absurd impossible (Nat.not_lt_zero count)⟩
  | cons line later inductionHypothesis =>
      rw [List.flatMap_cons]
      exact (inTriples_cons ..).mpr ⟨⟨_, rfl⟩, rfl, inductionHypothesis⟩

theorem exists_lines_of_inTriples :
    ∀ {items : List Word}, InTriples items →
      ∃ lines : List (String × Word), items = lines.flatMap pairWords
  | [], _ => ⟨[], rfl⟩
  | [_], triples => absurd triples.1 (by simp)
  | [_, _], triples => absurd triples.1 (by simp)
  | first :: second :: third :: rest, triples => by
      obtain ⟨⟨name, rfl⟩, rfl, later⟩ := (inTriples_cons ..).mp triples
      obtain ⟨lines, rfl⟩ := exists_lines_of_inTriples later
      exact ⟨(name, third) :: lines, rfl⟩

end Word

namespace Action

theorem exists_pairs_of_entriesFromEnd
    {known entries : Record Word}
    {items : List Word}
    (read : entriesFromEnd known items = .ok entries) :
    ∃ pairs, items = (Word.pairsWords pairs).reverse := by
  fun_induction entriesFromEnd known items with
  | case1 => exact ⟨[], rfl⟩
  | case2 known value name rest inductionHypothesis =>
      obtain ⟨pairs, rfl⟩ := inductionHypothesis read
      refine ⟨(name, value) :: pairs, ?_⟩
      rw [Word.pairsWords_cons, List.reverse_append]
      rfl
  | case3 => cases read
  | case4 => cases read

/-- A dict is read off the words that are triples, and off no others. -/
theorem exists_entriesOf_iff (items : List Word) :
    (∃ entries, entriesOf items = .ok entries) ↔ Word.InTriples items := by
  constructor
  · rintro ⟨entries, read⟩
    obtain ⟨pairs, reversed⟩ := exists_pairs_of_entriesFromEnd read
    rw [List.reverse_inj.mp reversed]
    exact Word.inTriples_lines _
  · intro triples
    obtain ⟨lines, rfl⟩ := Word.exists_lines_of_inTriples triples
    refine ⟨.ofPairs lines.reverse, ?_⟩
    rw [← entriesOf_pairsWords, Word.pairsWords, List.reverse_reverse]

/-! ## What the words do -/

variable {σ : Type} {host : Host σ} {before : Machine σ} {rest : List Word}
variable {entries : Record Word} {name : String} {key value : Word}

theorem perform_dict_of_error
    (host : Host σ)
    {items : List Word}
    {error : EvalError}
    (data : before.data = .list items :: rest)
    (refused : entriesOf items = .error error) :
    perform host .dict before =
      .error (.eval error)
        { before with data := rest, journal := .popped (.list items) :: before.journal } := by
  have read : popAs Word.asList before = .ok items _ := popAs_of_cons data rfl
  refine (bind_of_ok read).trans (bind_of_error ?_)
  rw [refused]
  rfl

theorem perform_put
    (host : Host σ)
    (data : before.data = .dict entries :: key :: value :: rest)
    (asks : Word.Asks name key) :
    perform host .put before =
      .ok ()
        { before with
          data := .dict (entries.put name value) :: rest
          journal := .pushed :: .popped value :: .popped key :: .popped (.dict entries) ::
            before.journal } := by
  have first : popAs Word.asDict before = .ok entries _ := popAs_of_cons data rfl
  refine (bind_of_ok first).trans ?_
  exact (bind_of_ok (popAs_of_cons rfl asks.entryName_eq)).trans (bind_of_ok (pop_of_cons rfl))

theorem perform_keys
    (host : Host σ)
    (data : before.data = .dict entries :: rest) :
    perform host .keys before =
      .ok ()
        { before with
          data := .list (entries.names.map .str) :: rest
          journal := .pushed :: .popped (.dict entries) :: before.journal } := by
  have read : popAs Word.asDict before = .ok entries _ := popAs_of_cons data rfl
  exact bind_of_ok read

theorem perform_get
    (host : Host σ)
    (data : before.data = .dict entries :: key :: rest)
    (asks : Word.Asks name key)
    (found : entries.get? name = some value) :
    perform host .get before =
      .ok ()
        { before with
          data := value :: rest
          journal := .pushed :: .popped key :: .popped (.dict entries) :: before.journal } := by
  have first : popAs Word.asDict before = .ok entries _ := popAs_of_cons data rfl
  refine (bind_of_ok first).trans ((bind_of_ok (popAs_of_cons rfl asks.entryName_eq)).trans ?_)
  rw [found]
  rfl

theorem perform_get_of_none
    (host : Host σ)
    (data : before.data = .dict entries :: key :: rest)
    (asks : Word.Asks name key)
    (missing : entries.get? name = none) :
    perform host .get before =
      .error (.eval (.unknown name))
        { before with
          data := rest
          journal := .popped key :: .popped (.dict entries) :: before.journal } := by
  have first : popAs Word.asDict before = .ok entries _ := popAs_of_cons data rfl
  refine (bind_of_ok first).trans ((bind_of_ok (popAs_of_cons rfl asks.entryName_eq)).trans ?_)
  rw [missing]
  rfl

end Action

namespace Machine

variable {σ : Type} {host : Host σ} {dictionary : Dictionary} {world : σ}
variable {data code : List Word} {recovery : List Snapshot} {log : List Event}
variable {name : String} {key value : Word} {entries : Record Word}

theorem leaves_dict
    {machine : Machine σ}
    {items : List Word}
    (bound : machine.dictionary.get? "dict" = some (.primitive .dict))
    (operands : machine.data = .list items :: data)
    (next : machine.code = .atom "dict" :: code)
    (read : Action.entriesOf items = .ok entries) :
    machine.Leaves host (.dict entries :: data) :=
  leaves_of_perform next bound (Action.perform_dict host (data_begun.trans operands) read)

theorem raises_dict
    {machine : Machine σ}
    {items : List Word}
    (bound : machine.dictionary.get? "dict" = some (.primitive .dict))
    (operands : machine.data = .list items :: data)
    (next : machine.code = .atom "dict" :: code)
    (other : ¬ Word.InTriples items) :
    machine.Raises host .macroFailed := by
  cases read : Action.entriesOf items with
  | ok entries => exact absurd ((Action.exists_entriesOf_iff items).mp ⟨entries, read⟩) other
  | error error =>
      obtain rfl : error = .macroFailed := Action.entriesFromEnd_eq_error read
      exact raises_of_perform next bound
        (Action.perform_dict_of_error host (data_begun.trans operands) read)

theorem leads_put
    (bound : dictionary.get? "put" = some (.primitive .put))
    (asks : Word.Asks name key) :
    Leads host
      (Desk.machine (.atom "put" :: code) recovery log
        ⟨.dict entries :: key :: value :: data, dictionary, world⟩)
      (Desk.machine code recovery log
        ⟨.dict (entries.put name value) :: data, dictionary, world⟩) :=
  leads_primitive bound (Action.perform_put host rfl asks)

/-- Executed once for each pair, `put` sets the names in turn. -/
theorem leads_puts
    {pairs : List (String × Word)}
    {operands : List Word}
    (bound : dictionary.get? "put" = some (.primitive .put))
    (puts : Word.Puts pairs operands) :
    Leads host
      (Desk.machine (List.replicate pairs.length (.atom "put") ++ code) recovery log
        ⟨.dict entries :: (operands ++ data), dictionary, world⟩)
      (Desk.machine code recovery log
        ⟨.dict (pairs.foldl (fun record pair => Record.put pair.1 pair.2 record) entries) :: data,
          dictionary, world⟩) := by
  induction puts generalizing entries with
  | nil => exact .refl _
  | cons asks others inductionHypothesis => exact (leads_put bound asks).trans inductionHypothesis

/-- The words on dicts agree on one ordered map. Take any pairs of names and values, where a name may
come up in any number of pairs. The word `dict` on the words that write the pairs as lines makes the
same dict as `put` for one pair after the other, from the empty dict on. Of that dict, `keys` gives
the names in the order in which they first come up. Asked for a name by a string or an atom, `get`
gives the value that stands with the name last, and it fails for a name that no pair has. On a list,
`dict` succeeds if and only if the list consists of triples of an atom, an equality sign and any
word, and otherwise it fails with one error. -/
theorem dict_words_agree
    {machine : Machine σ}
    (host : Host σ)
    (bound : ∀ builtin ∈ [Builtin.dict, .put, .get, .keys],
      machine.dictionary.get? builtin.name = some (.primitive builtin))
    (rest below : List Word) :
    (∀ pairs : List (String × Word), ∃ entries : Record Word,
      { machine with
        data := .list (Word.pairsWords pairs) :: rest
        code := .atom "dict" :: below }.Leaves host (.dict entries :: rest) ∧
      (∀ operands, Word.Puts pairs operands →
        { machine with
          data := .dict [] :: (operands ++ rest)
          code := List.replicate pairs.length (Word.atom "put") ++ below }.Gets host
            (.dict entries :: rest) below) ∧
      { machine with
        data := .dict entries :: rest
        code := .atom "keys" :: below }.Leaves host
          (.list ((pairs.map Prod.fst).eraseDups.map .str) :: rest) ∧
      (∀ before name value after key,
        pairs = before ++ (name, value) :: after → name ∉ after.map Prod.fst →
        Word.Asks name key →
        { machine with
          data := .dict entries :: key :: rest
          code := .atom "get" :: below }.Leaves host (value :: rest)) ∧
      (∀ name key, name ∉ pairs.map Prod.fst → Word.Asks name key →
        { machine with
          data := .dict entries :: key :: rest
          code := .atom "get" :: below }.Raises host (.unknown name))) ∧
    ∀ items,
      let asked : Machine σ :=
        { machine with data := .list items :: rest, code := .atom "dict" :: below }
      ((∃ data, asked.Leaves host data) ↔ Word.InTriples items) ∧
      (¬ Word.InTriples items → asked.Raises host .macroFailed) := by
  refine ⟨fun pairs => ⟨.ofPairs pairs, ?_, ?_, ?_, ?_, ?_⟩, ?_⟩
  · exact leaves_dict (bound .dict (by decide)) rfl rfl (Action.entriesOf_pairsWords pairs)
  · intro operands puts
    refine Leads.gets ?_ rfl rfl
    exact leads_puts (bound .put (by decide)) puts
  · rw [← Record.names, ← Record.names_ofPairs]
    exact leaves_of_perform rfl (bound .keys (by decide)) (Action.perform_keys host data_begun)
  · rintro before name value after key rfl last asks
    have found := (Record.lastOf_ofPairs _).last before name value after rfl last
    exact leaves_of_perform rfl (bound .get (by decide))
      (Action.perform_get host data_begun asks found)
  · intro name key missing asks
    have none := (Record.lastOf_ofPairs pairs).missing name missing
    exact raises_of_perform rfl (bound .get (by decide))
      (Action.perform_get_of_none host data_begun asks none)
  · intro items asked
    have refuses (other : ¬ Word.InTriples items) : asked.Raises host .macroFailed :=
      raises_dict (bound .dict (by decide)) rfl rfl other
    refine ⟨⟨?_, ?_⟩, refuses⟩
    · rintro ⟨data, leaves⟩
      by_contra other
      exact (refuses other).not_leaves leaves
    · intro triples
      obtain ⟨entries, read⟩ := (Action.exists_entriesOf_iff items).mpr triples
      exact ⟨_, leaves_dict (bound .dict (by decide)) rfl rfl read⟩

/-- Three names that come up six times, asked for in both ways, a name that never comes up, and two
lists that write no dict. -/
theorem dict_words_agree_overwriting :
    let pairs : List (String × Word) :=
      [("b", .int 1), ("a", .str "x"), ("b", .list []), ("=", .hex 2), ("a", .atom "b"),
        ("b", .int 3)]
    let machine (data code : List Word) : Machine Answer :=
      { data := data
        code := code
        dictionary := Library.dictionary
        recovery := [⟨[], [], []⟩]
        tracing := true
        world := {} }
    (∃ entries : Record Word,
      (machine [.list (Word.pairsWords pairs), .int 0] [.atom "dict"]).Leaves Answer.host
        [.dict entries, .int 0] ∧
      (machine
          [.dict [], .str "b", .int 1, .atom "a", .str "x", .atom "b", .list [], .str "=", .hex 2,
            .str "a", .atom "b", .str "b", .int 3, .int 0]
          (List.replicate 6 (.atom "put"))).Gets Answer.host [.dict entries, .int 0] [] ∧
      (machine [.dict entries, .int 0] [.atom "keys"]).Leaves Answer.host
        [.list [.str "b", .str "a", .str "="], .int 0] ∧
      (machine [.dict entries, .atom "a", .int 0] [.atom "get"]).Leaves Answer.host
        [.atom "b", .int 0] ∧
      (machine [.dict entries, .str "c", .int 0] [.atom "get"]).Raises Answer.host
        (.unknown "c")) ∧
      (machine [.list [.atom "a", .atom "==", .int 1], .int 0] [.atom "dict"]).Raises Answer.host
        .macroFailed ∧
      (machine [.list [.atom "a", .atom "=", .int 1, .atom "b"], .int 0] [.atom "dict"]).Raises
        Answer.host .macroFailed := by
  intro pairs machine
  have bound : ∀ builtin ∈ [Builtin.dict, .put, .get, .keys],
      (machine [] []).dictionary.get? builtin.name = some (.primitive builtin) :=
    fun builtin _ => Library.get?_name builtin
  obtain ⟨mapped, triples⟩ := dict_words_agree Answer.host bound [.int 0] []
  obtain ⟨entries, written, put, keys, last, others⟩ := mapped pairs
  have operands : Word.Puts pairs
      [.str "b", .int 1, .atom "a", .str "x", .atom "b", .list [], .str "=", .hex 2,
        .str "a", .atom "b", .str "b", .int 3] :=
    .cons .str (.cons .atom (.cons .atom (.cons .str (.cons .str (.cons .str .nil)))))
  refine ⟨⟨entries, written, put _ operands, keys, ?_, ?_⟩, ?_, ?_⟩
  · exact last (pairs.take 4) "a" (.atom "b") [("b", .int 3)] (.atom "a") rfl (by decide) .atom
  · exact others "c" (.str "c") (by decide) .str
  · refine (triples [.atom "a", .atom "==", .int 1]).2 fun written => ?_
    exact absurd (written.2 0 (by decide)).2 (by decide)
  · refine (triples [.atom "a", .atom "=", .int 1, .atom "b"]).2 fun written => ?_
    exact absurd written.1 (by decide)

end Machine
end Concatenative
