import Mathlib.Logic.Function.Basic
import Smalltalk.Proofs.Kernel.Dictionaries

namespace Smalltalk

/-! The classes of a kernel with their method dictionaries: which methods they
have is what has been installed in them, and an installation keeps it so. -/

/-- The methods installed last in the classes, by their names. -/
abbrev MethodLog := KernelClass → String → Option Value

/-- A log with one more installation. -/
def MethodLog.note (log : MethodLog) (species : KernelClass) (name : String) (method : Value) :
    MethodLog :=
  fun other called => if other = species ∧ called = name then some method else log other called

/-- The objects that make up a class. -/
inductive ClassPart where
  | species
  | dictionary
  | array
deriving DecidableEq

/-- The slots of the parts of a class, and the table of its methods. -/
structure ClassRecord where
  slot : ClassPart → Nat
  table : MethodTable

namespace ClassRecord

/-- The reference to a part of a class. -/
def part (record : ClassRecord) (part : ClassPart) : Value := .object (record.slot part)

end ClassRecord

theorem lookup_cons_of_ne {name called : String} (different : called ≠ name) (symbol : Value)
    (symbols : List (String × Value)) :
    ((name, symbol) :: symbols).lookup called = symbols.lookup called := by
  rw [List.lookup_cons, beq_eq_false_iff_ne.mpr different]

namespace Kernel

/-- A class stands where its record says and has the methods that are known to
have been installed in it. -/
structure HoldsClass (kernel : Kernel) (species : KernelClass) (known : String → Option Value)
    (record : ClassRecord) : Prop where
  stands : kernel.classes species = record.part .species
  linked : kernel.heap.fetch (record.part .species) ClassField.methodDictionary
    = .ok (record.part .dictionary)
  nameable : ∃ name, kernel.heap.fetch (record.part .species) ClassField.name = .ok name
  holds : ∃ tally, kernel.heap.HoldsTable kernel.nil (record.part .dictionary)
      (record.part .array) tally record.table ∧ tally.Tallies (record.table.used kernel.nil)
  wide : 2 ≤ record.table.size
  /-- A dictionary is at most three quarters full, until there are more places
  than references. -/
  load : 4 * record.table.used kernel.nil ≤ 3 * record.table.size ∨ 2147483648 ≤ record.table.size
  answers : ∀ selector method, selector ≠ kernel.nil → (record.table.Answers selector method ↔
    ∃ name, kernel.symbols.lookup name = some selector ∧ known name = some method)
  interned : ∀ name method, known name = some method →
    ∃ symbol, kernel.symbols.lookup name = some symbol

/-- A kernel in which nothing has gone wrong since an earlier one: symbols are
unique, no two classes share a part, and every class has the methods of the log. -/
structure Recorded (kernel origin : Kernel) (log : MethodLog)
    (records : KernelClass → ClassRecord) : Prop where
  unused : kernel.heap.free = []
  failure : kernel.failure = none
  sameNil : kernel.nil = origin.nil
  sameClasses : kernel.classes = origin.classes
  nil : kernel.heap.Names kernel.nil
  symbols : ∀ name symbol, kernel.symbols.lookup name = some symbol →
    kernel.heap.Names symbol ∧ symbol ≠ kernel.nil
  unique : ∀ first second symbol, kernel.symbols.lookup first = some symbol →
    kernel.symbols.lookup second = some symbol → first = second
  apart : Function.Injective2 fun species => (records species).slot
  classes : ∀ species, kernel.HoldsClass species (log species) (records species)

variable {kernel origin before after : Kernel} {species : KernelClass} {known : String → Option Value}
  {record : ClassRecord} {log : MethodLog} {records : KernelClass → ClassRecord}
  {written : Value → Prop}

/-! ## What is written elsewhere -/

namespace HoldsClass

theorem names (holds : kernel.HoldsClass species known record) (part : ClassPart) :
    kernel.heap.Names (record.part part) := by
  obtain ⟨tally, table, -⟩ := holds.holds
  cases part with
  | species => exact Heap.names_of_fetch holds.linked
  | dictionary => exact table.names_dictionary
  | array => exact table.names_array

/-- Only the first fields of a class and its dictionary say which methods it
has. -/
theorem extend (holds : before.HoldsClass species known record) (keeps : before.Extends written after)
    (linkStays : after.heap.fetch (record.part .species) ClassField.methodDictionary
      = before.heap.fetch (record.part .species) ClassField.methodDictionary)
    (nameable : ∃ name, after.heap.fetch (record.part .species) ClassField.name = .ok name)
    (dictionaryStays : ¬ written (record.part .dictionary))
    (arrayStays : ¬ written (record.part .array)) :
    after.HoldsClass species known record := by
  obtain ⟨tally, table, tallies⟩ := holds.holds
  exact
    { stands := (congrFun keeps.classes species).trans holds.stands
      linked := linkStays.trans holds.linked
      nameable
      holds := ⟨tally, keeps.nil ▸ table.extend keeps.heap dictionaryStays arrayStays,
        keeps.nil ▸ tallies⟩
      wide := holds.wide
      load := keeps.nil ▸ holds.load
      answers := by
        rw [keeps.nil, keeps.symbols]
        exact holds.answers
      interned := by
        rw [keeps.symbols]
        exact holds.interned }

/-- What is not written to says what it said. -/
theorem untouched (holds : before.HoldsClass species known record)
    (keeps : before.Extends written after) (foreign : ∀ part, ¬ written (record.part part)) :
    after.HoldsClass species known record := by
  have stays := keeps.heap.fetch (holds.names .species) (foreign .species)
  obtain ⟨name, named⟩ := holds.nameable
  exact holds.extend keeps (stays _) ⟨name, (stays _).trans named⟩ (foreign _) (foreign _)

/-- A name that had no symbol has not been installed either. -/
theorem addSymbol (holds : kernel.HoldsClass species known record) {name : String}
    (unknown : kernel.symbols.lookup name = none) (symbol : Value) :
    { kernel with symbols := (name, symbol) :: kernel.symbols }.HoldsClass species known record := by
  have uninstalled : known name = none := by
    refine Option.eq_none_iff_forall_ne_some.mpr fun method installed => ?_
    obtain ⟨found, present⟩ := holds.interned name method installed
    cases unknown.symm.trans present
  have others {called : String} {method : Value} (installed : known called = some method) :
      ((name, symbol) :: kernel.symbols).lookup called = kernel.symbols.lookup called := by
    refine lookup_cons_of_ne ?_ symbol kernel.symbols
    rintro rfl
    cases uninstalled.symm.trans installed
  refine ⟨holds.stands, holds.linked, holds.nameable, holds.holds, holds.wide, holds.load, ?_, ?_⟩
  · intro selector method proper
    rw [holds.answers selector method proper]
    exact exists_congr fun called => and_congr_left fun installed => by rw [others installed]
  · intro called method installed
    rw [others installed]
    exact holds.interned called method installed

end HoldsClass

namespace Recorded

theorem part_ne (recorded : kernel.Recorded origin log records) {first second : KernelClass}
    {part other : ClassPart} (different : first ≠ second ∨ part ≠ other) :
    (records first).part part ≠ (records second).part other := by
  intro same
  obtain ⟨sameClass, samePart⟩ := recorded.apart (Value.object.inj same)
  rcases different with classes | parts
  · exact classes sameClass
  · exact parts samePart

theorem restart (recorded : kernel.Recorded origin log records) :
    kernel.Recorded kernel log records :=
  { recorded with sameNil := rfl, sameClasses := rfl }

theorem slot_lt (recorded : kernel.Recorded origin log records) (species : KernelClass)
    (part : ClassPart) : (records species).slot part < kernel.heap.cells.size := by
  obtain ⟨slot, inside, same⟩ := (recorded.classes species).names part
  cases same
  exact inside

/-- What a kernel has besides classes, it keeps. -/
theorem extend (recorded : before.Recorded origin log records) (keeps : before.Extends written after)
    {nextLog : MethodLog} {next : KernelClass → ClassRecord}
    (apart : Function.Injective2 fun species => (next species).slot)
    (classes : ∀ species, after.HoldsClass species (nextLog species) (next species)) :
    after.Recorded origin nextLog next where
  unused := keeps.heap.free.trans recorded.unused
  failure := keeps.failure.trans recorded.failure
  sameNil := keeps.nil.trans recorded.sameNil
  sameClasses := keeps.classes.trans recorded.sameClasses
  nil := keeps.nil ▸ keeps.heap.names recorded.nil
  symbols name symbol found := by
    rw [keeps.symbols] at found
    obtain ⟨named, proper⟩ := recorded.symbols name symbol found
    exact ⟨keeps.heap.names named, keeps.nil ▸ proper⟩
  unique := by
    rw [keeps.symbols]
    exact recorded.unique
  apart := apart
  classes := classes

theorem add (recorded : before.Recorded origin log records)
    (keeps : before.Extends (fun _ => False) after) : after.Recorded origin log records :=
  recorded.extend keeps recorded.apart fun species =>
    (recorded.classes species).untouched keeps fun _ => id

theorem addSymbol (recorded : kernel.Recorded origin log records) {name : String} {symbol : Value}
    (unknown : kernel.symbols.lookup name = none) (named : kernel.heap.Names symbol)
    (proper : symbol ≠ kernel.nil) (fresh : ∀ other, kernel.symbols.lookup other ≠ some symbol) :
    { kernel with symbols := (name, symbol) :: kernel.symbols }.Recorded origin log records where
  unused := recorded.unused
  failure := recorded.failure
  sameNil := recorded.sameNil
  sameClasses := recorded.sameClasses
  nil := recorded.nil
  symbols called known held := by
    by_cases same : called = name
    · subst same
      obtain rfl := Option.some.inj (List.lookup_cons_self.symm.trans held)
      exact ⟨named, proper⟩
    · rw [lookup_cons_of_ne same] at held
      exact recorded.symbols called known held
  unique first second known held again := by
    by_cases here : first = name <;> by_cases there : second = name
    · exact here.trans there.symm
    · subst here
      obtain rfl := Option.some.inj (List.lookup_cons_self.symm.trans held)
      rw [lookup_cons_of_ne there] at again
      exact absurd again (fresh second)
    · subst there
      obtain rfl := Option.some.inj (List.lookup_cons_self.symm.trans again)
      rw [lookup_cons_of_ne here] at held
      exact absurd held (fresh first)
    · rw [lookup_cons_of_ne here] at held
      rw [lookup_cons_of_ne there] at again
      exact recorded.unique first second known held again
  apart := recorded.apart
  classes species := (recorded.classes species).addSymbol unknown symbol

/-- A class has been written to, and perhaps got a new dictionary. -/
theorem replace (recorded : before.Recorded origin log records) (keeps : before.Extends written after)
    (only : ∀ value, written value → ∃ part, value = (records species).part part)
    {nextLog : MethodLog} (logged : ∀ other, other ≠ species → nextLog other = log other)
    (holds : after.HoldsClass species (nextLog species) record)
    (distinct : Function.Injective record.slot)
    (fresh : ∀ part, record.slot part = (records species).slot part ∨
      before.heap.cells.size ≤ record.slot part) :
    after.Recorded origin nextLog (Function.update records species record) := by
  have foreign {other : KernelClass} (different : other ≠ species) (part : ClassPart) :
      ¬ written ((records other).part part) := by
    intro touched
    obtain ⟨own, same⟩ := only _ touched
    exact recorded.part_ne (.inl different) same
  have apart {other : KernelClass} (different : other ≠ species) (part own : ClassPart) :
      record.slot own ≠ (records other).slot part := by
    intro same
    rcases fresh own with kept | new
    · exact different (recorded.apart (kept.symm.trans same)).1.symm
    · have := recorded.slot_lt other part
      omega
  refine recorded.extend keeps (fun first second part other same => ?_) fun other => ?_
  · by_cases here : first = species <;> by_cases there : second = species
    · subst here there
      simp only [Function.update_self] at same
      exact ⟨rfl, distinct same⟩
    · subst here
      simp only [Function.update_self, Function.update_of_ne there] at same
      exact absurd same (apart there other part)
    · subst there
      simp only [Function.update_self, Function.update_of_ne here] at same
      exact absurd same.symm (apart here part other)
    · simp only [Function.update_of_ne here, Function.update_of_ne there] at same
      exact recorded.apart same
  · by_cases here : other = species
    · subst here
      rwa [Function.update_self]
    · rw [Function.update_of_ne here, logged other here]
      exact (recorded.classes other).untouched keeps (foreign here)

end Recorded

end Kernel

/-! ## Installation -/

namespace Build

variable {kernel origin : Kernel} {log : MethodLog} {records : KernelClass → ClassRecord}
  {species : KernelClass} {name : String} {symbol method : Value}

/-- A name gets a symbol of its own, or has it already. -/
theorem intern_ensures (recorded : kernel.Recorded origin log records) (name : String) :
    Ensures (intern name) kernel fun symbol after =>
      after.Recorded origin log records ∧ after.symbols.lookup name = some symbol ∧
        after.classes = kernel.classes := by
  refine .bindOk get_apply ?_
  cases found : kernel.symbols.lookup name with
  | some symbol => exact .pure ⟨recorded, found, rfl⟩
  | none =>
    refine .bindOk rfl (.bind (allocate_ensures recorded.unused _ _ _) fun symbol middle adds => ?_)
    obtain ⟨rfl, keeps, size, -⟩ := adds
    refine .bindOk (modify_apply _) (.pure ⟨?_, List.lookup_cons_self, keeps.classes⟩)
    apply (recorded.add keeps).addSymbol (keeps.symbols ▸ found)
      ⟨_, size ▸ Nat.lt_succ_self _, rfl⟩
    · rw [keeps.nil]
      exact (recorded.nil.ne (Nat.le_refl _)).symm
    · intro other known
      rw [keeps.symbols] at known
      exact (recorded.symbols other _ known).1.ne (Nat.le_refl _) rfl

/-- The class after a method was put at the vacancy of its symbol. -/
theorem holdsClass_of_fills {after : Kernel} {place : Nat}
    (recorded : kernel.Recorded origin log records)
    (interned : kernel.symbols.lookup name = some symbol)
    (load : 4 * ((records species).table.used kernel.nil + 1) ≤ 3 * (records species).table.size ∨
      2147483648 ≤ (records species).table.size)
    (ends : (records species).table.vacancy? kernel.nil symbol
      (MethodDictionary.probes (kernel.heap.hashOf symbol) (records species).table.size)
        = some place)
    (fills : kernel.Fills after ((records species).part .dictionary) ((records species).part .array)
      ((records species).table.put place symbol method)) :
    after.HoldsClass species (log.note species name method species)
      { records species with table := (records species).table.put place symbol method } := by
  have before := recorded.classes species
  obtain ⟨tally, holds, tallies⟩ := before.holds
  obtain ⟨-, proper⟩ := recorded.symbols name symbol interned
  have taken : ((records species).table.put place symbol method).used kernel.nil
      ≤ (records species).table.used kernel.nil + 1 := MethodTable.used_put_le ends proper
  have linkStays : ¬ ((records species).part .species = (records species).part .dictionary ∨
      (records species).part .species = (records species).part .array) :=
    not_or.mpr ⟨recorded.part_ne (.inr (by simp)), recorded.part_ne (.inr (by simp))⟩
  have stays := fills.keeps.heap.fetch (before.names .species) linkStays
  obtain ⟨title, named⟩ := before.nameable
  refine ⟨(congrFun fills.keeps.classes species).trans before.stands, (stays _).trans before.linked,
    ⟨title, (stays _).trans named⟩, ?_, (MethodTable.size_put ..).symm ▸ before.wide, ?_,
    fun selector found distinct => ?_, fun called found known => ?_⟩
  · rw [fills.keeps.nil]
    exact fills.holds
  · rw [fills.keeps.nil, MethodTable.size_put]
    refine load.imp_left fun loose => ?_
    exact Nat.le_trans (Nat.mul_le_mul_left 4 taken) loose
  · rw [fills.keeps.nil] at distinct
    rw [fills.keeps.symbols]
    by_cases same : selector = symbol
    · -- the only name of the symbol is the one that has just been installed
      subst same
      rw [holds.sound.answers_put_same ends rfl proper]
      constructor
      · rintro rfl
        exact ⟨name, interned, by simp [MethodLog.note]⟩
      · intro known
        obtain ⟨called, held, installed⟩ := known
        obtain rfl := recorded.unique called name selector held interned
        simpa [MethodLog.note, eq_comm] using installed
    · rw [MethodTable.answers_put_other ends same distinct, before.answers selector found distinct]
      refine exists_congr fun called => and_congr_right fun held => ?_
      have other : called ≠ name := by
        rintro rfl
        exact same (Option.some.inj (held.symm.trans interned))
      simp [MethodLog.note, other]
  · rw [fills.keeps.symbols]
    by_cases same : called = name
    · subst same
      exact ⟨symbol, interned⟩
    · exact before.interned called found (by simpa [MethodLog.note, same] using known)

/-- An insertion into the dictionary of a class, which is not too full. -/
theorem insertMethod_ensures (recorded : kernel.Recorded origin log records)
    (interned : kernel.symbols.lookup name = some symbol)
    (load : 4 * ((records species).table.used kernel.nil + 1) ≤ 3 * (records species).table.size ∨
      2147483648 ≤ (records species).table.size) (method : Value) :
    Ensures (insertMethod ((records species).part .dictionary) symbol method) kernel fun _ after =>
      after.Outgrown ∨ ∃ records, after.Recorded origin (log.note species name method) records := by
  by_cases outgrown : kernel.Outgrown
  · exact .of_outgrown outgrown (.insertMethod _ _ _)
  obtain ⟨tally, holds, tallies⟩ := (recorded.classes species).holds
  obtain ⟨named, proper⟩ := recorded.symbols name symbol interned
  have room : (records species).table.used kernel.nil < (records species).table.size := by
    rcases load with loose | vast
    · omega
    · have few := holds.sound.used_lt recorded.nil holds.named
      rw [Kernel.Outgrown] at outgrown
      omega
  obtain ⟨place, ends⟩ := MethodTable.exists_vacancy room symbol (kernel.heap.hashOf symbol)
  obtain ⟨after, inserts, fills⟩ := insertMethod_puts holds tallies named proper ends method
  refine (Ensures.iff_of_ok inserts).mpr (.inr ⟨_, recorded.replace fills.keeps ?_ ?_
    (holdsClass_of_fills recorded interned load ends fills) (recorded.apart.right species)
    fun _ => .inl rfl⟩)
  · rintro value (same | same)
    · exact ⟨.dictionary, same⟩
    · exact ⟨.array, same⟩
  · intro other different
    funext called
    exact if_neg fun same => different same.1

/-- A class gets a larger dictionary, in which there is room for one more
method. -/
theorem growDictionary_records (recorded : kernel.Recorded origin log records) (species : KernelClass) :
    Ensures (growDictionary (kernel.classes species) ((records species).part .dictionary)
        ((records species).table.size * 2)) kernel fun dictionary after =>
      ∃ next, after.Recorded origin log next ∧ dictionary = (next species).part .dictionary ∧
        after.symbols = kernel.symbols ∧
        4 * ((next species).table.used after.nil + 1) ≤ 3 * (next species).table.size := by
  have before := recorded.classes species
  obtain ⟨tally, holds, -⟩ := before.holds
  have wide := before.wide
  rw [before.stands]
  refine .mono (growDictionary_ensures recorded.unused before.linked holds) ?_
  intro dictionary after grown
  obtain ⟨rfl, size, keeps, linked, stays, tally, table, holdsAfter, tallies, doubled, used, same⟩ :=
    grown
  set record : ClassRecord :=
    { slot := fun
        | .species => (records species).slot .species
        | .dictionary => kernel.heap.cells.size + 1
        | .array => kernel.heap.cells.size
      table }
  have old := recorded.slot_lt species .species
  have holdsClass : after.HoldsClass species (log species) record := by
    obtain ⟨title, named⟩ := before.nameable
    refine ⟨(congrFun keeps.classes species).trans before.stands, linked,
      ⟨title, (stays _ (by decide)).trans named⟩, ⟨tally, ?_, ?_⟩, ?_, ?_,
      fun selector method proper => ?_, ?_⟩
    · rw [keeps.nil]
      exact holdsAfter
    · rw [keeps.nil]
      exact tallies
    · exact doubled ▸ Nat.le_trans wide (Nat.le_mul_of_pos_right _ (by decide))
    · rw [keeps.nil]
      left
      change 4 * table.used kernel.nil ≤ 3 * table.size
      omega
    · rw [keeps.nil] at proper
      rw [keeps.symbols, ← before.answers selector method proper]
      exact same selector method proper
    · rw [keeps.symbols]
      exact before.interned
  refine ⟨_, recorded.replace keeps ?_ (fun _ _ => rfl) holdsClass ?_ ?_, ?_, keeps.symbols, ?_⟩
  · intro value touched
    exact ⟨.species, touched⟩
  · intro part other equal
    cases part <;> cases other <;> simp only [record] at equal <;> first | rfl | omega
  · intro part
    cases part with
    | species => exact .inl rfl
    | dictionary => exact .inr (Nat.le_succ _)
    | array => exact .inr (Nat.le_refl _)
  · rw [Function.update_self]
    rfl
  · rw [Function.update_self, keeps.nil]
    change 4 * (table.used kernel.nil + 1) ≤ 3 * table.size
    omega

/-- The tally shows whether a dictionary is too full, as long as it can count the
entries. -/
theorem load_of_not_full {used size : Nat} {n : Int} (power : ∃ exponent, size = 2 ^ exponent)
    (load : 4 * used ≤ 3 * size ∨ 2147483648 ≤ size) (counts : used ≤ 1073741823 → n = used)
    (loose : ¬ (size * 3 : Int) < (n + 1) * 4) :
    4 * (used + 1) ≤ 3 * size ∨ 2147483648 ≤ size := by
  by_cases vast : 2147483648 ≤ size
  · exact .inr vast
  obtain ⟨exponent, rfl⟩ := power
  have below : 2 ^ exponent < 2 ^ 31 := Nat.not_le.mp vast
  have small : exponent < 31 := (Nat.pow_lt_pow_iff_right (by decide)).mp below
  have bounded : 2 ^ exponent ≤ 2 ^ 30 := Nat.pow_le_pow_right (by decide) (Nat.le_of_lt_succ small)
  have counted := counts (by omega)
  omega

/-- Installing a method in a class adds it to the log. -/
theorem install_ensures (recorded : kernel.Recorded origin log records) (species : KernelClass)
    (name : String) (method : Value) :
    Ensures (install (kernel.classes species) name method) kernel fun _ after =>
      after.Outgrown ∨ ∃ records, after.Recorded origin (log.note species name method) records := by
  refine .bind (intern_ensures recorded name) fun symbol middle named => ?_
  obtain ⟨recordedMiddle, interned, classes⟩ := named
  rw [← classes]
  have holdsClass := recordedMiddle.classes species
  obtain ⟨tally, holds, n, counted, counts⟩ := holdsClass.holds
  have linked := holdsClass.linked
  rw [← holdsClass.stands] at linked
  refine .bindOk (fetch_of_ok linked) (.bindOk (capacityOf_of_table holds)
    (.bindOk (fetchInt_of_tally holds counted) ?_))
  by_cases full : ((records species).table.size * 3 : Int) < (n + 1) * 4
  · rw [if_pos full]
    refine .bind (growDictionary_records recordedMiddle species) fun dictionary after grown => ?_
    obtain ⟨next, recordedAfter, rfl, symbols, load⟩ := grown
    exact insertMethod_ensures recordedAfter (symbols ▸ interned) (.inl load) method
  · rw [if_neg full]
    refine insertMethod_ensures recordedMiddle interned ?_ method
    exact load_of_not_full holds.power holdsClass.load counts full

end Build

end Smalltalk
