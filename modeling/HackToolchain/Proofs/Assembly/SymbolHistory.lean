import HackToolchain.Proofs.Assembly.Bounds
import HackToolchain.Proofs.Assembly.Capacity

/-! The symbol table after any history of requests. What it holds is read off the requests alone: a
symbol has the address from the first request that binds it, and the variables have the cells from
16 on, in the order in which they were first resolved. A table that holds the predefined symbols
among the others answers alike. -/

namespace HackToolchain

namespace SymbolTable

/-! ### Requests -/

inductive Request where
  | get (name : String)
  | define (name : String) (address : Word)
  | resolve (name : String)
deriving DecidableEq

namespace Request

/-- The symbol that has an address once the request was served. -/
def bound? : Request → Option String
  | get _ => none
  | define name _ | resolve name => some name

def resolved? : Request → Option String
  | resolve name => some name
  | get _ | define .. => none

/-- The address that the request gives a symbol without one, if a new variable has the cell. -/
def grant? (cell : Nat) (name : String) : Request → Option Nat
  | get _ => none
  | define other address => if other = name then some address.toNat else none
  | resolve other => if other = name then some cell else none

end Request

/-- The table after one request. A label that cannot be defined leaves it as it is. -/
def serve (table : SymbolTable) : Request → SymbolTable
  | .get _ => table
  | .define name address =>
    match table.define name address.toNat with
    | .ok after => after
    | .error _ => table
  | .resolve name => (table.resolve name).2

/-- The table after requests to a new table. -/
def ofRequests (requests : List Request) : SymbolTable := requests.foldl serve {}

variable {table : SymbolTable} {requests : List Request} {name : String} {address : Nat}

theorem define_of_bound (bound : table.get? name = some address) (other : Nat) :
    table.define name other = .error (.labelInUse name address) := by
  rw [define, bound]

theorem define_eq_ok_iff (table : SymbolTable) (name : String) (address : Nat) :
    (∃ after, table.define name address = .ok after) ↔ table.get? name = none := by
  rw [define]
  cases table.get? name <;> simp

theorem serve_define_of_bound (bound : table.get? name = some address) (other : Word) :
    table.serve (.define name other) = table := by
  rw [serve, define_of_bound bound]

/-- A request keeps the addresses that symbols have. -/
theorem get?_serve (table : SymbolTable) (request : Request) (name : String) :
    (table.serve request).get? name =
      (table.get? name).or (request.grant? table.nextVariable name) := by
  cases request with
  | get other => exact Option.or_none.symm
  | define other address =>
    rw [Request.grant?]
    cases bound : table.get? other with
    | none =>
      obtain ⟨after, defined⟩ := (define_eq_ok_iff table other address.toNat).mpr bound
      rw [serve, defined]
      dsimp only
      rw [get?_define defined]
      split
      · next same => rw [← same, bound, Option.none_or]
      · rw [Option.or_none]
    | some before =>
      rw [serve_define_of_bound bound]
      split
      · next same => rw [← same, bound, Option.some_or]
      · rw [Option.or_none]
  | resolve other =>
    rw [Request.grant?, serve, get?_resolve]
    split
    · next same =>
      subst same
      cases bound : table.get? other with
      | none => rw [(resolve_of_unbound bound).1, Option.none_or]
      | some before => rw [resolve_of_bound bound, Option.some_or]
    · rw [Option.or_none]

/-- Only a request that resolves an unbound symbol makes a variable. -/
theorem variableCount_serve (table : SymbolTable) (request : Request) :
    (table.serve request).variableCount = table.variableCount +
      (request.resolved?.filter fun name => (table.get? name).isNone).toList.length := by
  cases request with
  | get other => rfl
  | define other address =>
    show (table.serve _).variableCount = table.variableCount
    rw [serve, define]
    cases table.get? other <;> rfl
  | resolve other =>
    rw [serve, resolve, Request.resolved?, Option.filter_some]
    cases table.get? other <;> rfl

theorem get?_foldl_serve (requests : List Request) (bound : table.get? name = some address) :
    (requests.foldl serve table).get? name = some address := by
  induction requests generalizing table with
  | nil => exact bound
  | cons request rest ih =>
    apply ih
    rw [get?_serve, bound, Option.some_or]

theorem ofRequests_append (front back : List Request) :
    ofRequests (front ++ back) = back.foldl serve (ofRequests front) := List.foldl_append

/-! ### One map for all symbols -/

/-- A table that holds all symbols in one map, the predefined ones from the start, and the cell of
the next variable. -/
structure Merged where
  symbols : Std.HashMap String Nat := .ofList predefinedSymbols
  next : Nat := Platform.variableBase

namespace Merged

def define (one : Merged) (name : String) (address : Nat) : Except Defect Merged :=
  match one.symbols[name]? with
  | some bound => .error (.labelInUse name bound)
  | none => .ok { one with symbols := one.symbols.insert name address }

def resolve (one : Merged) (name : String) : Nat × Merged :=
  match one.symbols[name]? with
  | some address => (address, one)
  | none => (one.next, ⟨one.symbols.insert name one.next, one.next + 1⟩)

def serve (one : Merged) : Request → Merged
  | .get _ => one
  | .define name address =>
    match one.define name address.toNat with
    | .ok after => after
    | .error _ => one
  | .resolve name => (one.resolve name).2

/-- The two tables give every symbol the same address, and the next variable the same cell. -/
structure Agrees (one : Merged) (table : SymbolTable) : Prop where
  get? : ∀ name, one.symbols[name]? = table.get? name
  next : one.next = table.nextVariable

theorem agrees_new : Agrees {} {} where
  get? name := by
    have apart : predefinedSymbols.Pairwise fun a b => (a.1 == b.1) = false := by decide
    show (Std.HashMap.ofList predefinedSymbols)[name]? = _
    rw [SymbolTable.get?, Std.HashMap.getElem?_empty, Option.or_none]
    cases fixed : predefinedSymbols.lookup name with
    | some address =>
      obtain ⟨front, back, split, -⟩ := List.lookup_eq_some_iff.mp fixed
      exact Std.HashMap.getElem?_ofList_of_mem (beq_self_eq_true name) apart (by simp [split])
    | none =>
      apply Std.HashMap.getElem?_ofList_of_contains_eq_false
      rw [← Bool.not_eq_true, List.contains_iff_mem]
      intro inside
      obtain ⟨entry, among, rfl⟩ := List.mem_map.mp inside
      exact bne_iff_ne.mp (List.lookup_eq_none_iff.mp fixed entry among) rfl
  next := rfl

variable {one : Merged}

theorem Agrees.insert (h : Agrees one table) (unbound : table.get? name = none)
    (address count : Nat) (other : String) :
    (one.symbols.insert name address)[other]? =
      (SymbolTable.mk (table.added.insert name address) count).get? other := by
  rw [get?_insert unbound, Std.HashMap.getElem?_insert, h.get?]
  simp only [beq_iff_eq]

/-- A definition succeeds in both tables, which then agree again, or fails in both for the same
reason. -/
theorem Agrees.define (h : Agrees one table) (name : String) (address : Nat) :
    (∃ one' table', one.define name address = .ok one' ∧ table.define name address = .ok table' ∧
      Agrees one' table') ∨
    ∃ defect, one.define name address = .error defect ∧
      table.define name address = .error defect := by
  rw [Merged.define, SymbolTable.define, h.get?]
  cases unbound : table.get? name with
  | some bound => exact .inr ⟨_, rfl, rfl⟩
  | none => exact .inl ⟨_, _, rfl, rfl, h.insert unbound address _, h.next⟩

theorem Agrees.resolve (h : Agrees one table) (name : String) :
    (one.resolve name).1 = (table.resolve name).1 ∧
      Agrees (one.resolve name).2 (table.resolve name).2 := by
  rw [Merged.resolve, SymbolTable.resolve, h.get?]
  cases unbound : table.get? name with
  | some bound => exact ⟨rfl, h⟩
  | none =>
    rw [← h.next]
    exact ⟨rfl, h.insert unbound one.next _, congrArg (· + 1) h.next⟩

theorem Agrees.serve (h : Agrees one table) (request : Request) :
    Agrees (one.serve request) (table.serve request) := by
  cases request with
  | get name => exact h
  | define name address =>
    rw [Merged.serve, SymbolTable.serve]
    rcases h.define name address.toNat with ⟨one', table', made, made', agrees⟩ | ⟨_, fails, fails'⟩
    · rw [made, made']
      exact agrees
    · rw [fails, fails']
      exact h
  | resolve name => exact (h.resolve name).2

/-- The predefined symbols stand apart from the others in a table, but no history of requests tells
it from one map that starts with them. -/
theorem agrees_ofRequests (requests : List Request) :
    Agrees (requests.foldl serve {}) (ofRequests requests) := by
  induction requests using List.reverseRecOn with
  | nil => exact agrees_new
  | append_singleton front last ih =>
    rw [ofRequests_append, List.foldl_append]
    exact ih.serve last

end Merged

/-! ### What the requests say -/

namespace History

/-- The first request that binds a symbol, unless it is predefined. -/
def binding? (requests : List Request) (name : String) : Option Request :=
  requests.find? fun request => request.bound? = some name

/-- The resolved symbols that no request bound before. -/
def firstResolved (requests : List Request) : List String :=
  (requests.filterMap Request.resolved?).filter fun name =>
    predefinedSymbols.lookup name = none ∧ binding? requests name = some (.resolve name)

/-- The variables, in the order in which they are first resolved. -/
def allocated (requests : List Request) : List String := (firstResolved requests).eraseDups

/-- The address of a symbol after the requests. -/
def address? (requests : List Request) (name : String) : Option Nat :=
  (predefinedSymbols.lookup name).or <| (binding? requests name).map fun
    | .define _ address => address.toNat
    | .get _ | .resolve _ => Platform.variableBase + (allocated requests).idxOf name

variable {request : Request}

theorem bound_of_binding? (found : binding? requests name = some request) :
    request.bound? = some name := by
  simpa using List.find?_some found

theorem binding?_snoc (requests : List Request) (request : Request) (name : String) :
    binding? (requests ++ [request]) name =
      (binding? requests name).or (if request.bound? = some name then some request else none) := by
  rw [binding?, List.find?_append, List.find?_singleton]
  simp only [decide_eq_true_eq]
  rfl

theorem eq_resolve_of_resolved? (resolves : request.resolved? = some name) :
    request = .resolve name := by
  cases request with
  | get other | define other address => cases resolves
  | resolve other => cases resolves; rfl

theorem exists_binding?_of_resolved (resolved : name ∈ requests.filterMap Request.resolved?) :
    ∃ request, binding? requests name = some request := by
  obtain ⟨request, inside, resolves⟩ := List.mem_filterMap.mp resolved
  rw [← Option.isSome_iff_exists, binding?, List.find?_isSome]
  refine ⟨request, inside, decide_eq_true ?_⟩
  rw [eq_resolve_of_resolved? resolves, Request.bound?]

theorem mem_firstResolved : name ∈ firstResolved requests ↔
    predefinedSymbols.lookup name = none ∧ binding? requests name = some (.resolve name) := by
  rw [firstResolved, List.mem_filter, decide_eq_true_eq, and_iff_right_iff_imp]
  rintro ⟨-, found⟩
  exact List.mem_filterMap.mpr ⟨_, List.mem_of_find?_eq_some found, rfl⟩

theorem mem_allocated : name ∈ allocated requests ↔
    predefinedSymbols.lookup name = none ∧ binding? requests name = some (.resolve name) := by
  rw [allocated, List.mem_eraseDups, mem_firstResolved]

theorem nodup_allocated (requests : List Request) : (allocated requests).Nodup :=
  Lines.nodup_eraseDups _

theorem address?_eq_none : address? requests name = none ↔
    predefinedSymbols.lookup name = none ∧ binding? requests name = none := by
  rw [address?, Option.or_eq_none_iff, Option.map_eq_none_iff]

/-- What a request resolves is among them if it is already, or if it has no address. -/
theorem firstResolved_snoc (requests : List Request) (request : Request) :
    firstResolved (requests ++ [request]) = firstResolved requests ++
      request.resolved?.toList.filter fun name =>
        name ∈ firstResolved requests ∨ address? requests name = none := by
  have before : (requests.filterMap Request.resolved?).filter (fun name =>
        predefinedSymbols.lookup name = none ∧
          binding? (requests ++ [request]) name = some (.resolve name)) =
      firstResolved requests := by
    refine List.filter_congr fun name resolved => ?_
    obtain ⟨first, found⟩ := exists_binding?_of_resolved resolved
    rw [binding?_snoc, found, Option.some_or]
  have last : [request].filterMap Request.resolved? = request.resolved?.toList := by
    cases resolves : request.resolved? <;> simp [resolves]
  rw [firstResolved, List.filterMap_append, List.filter_append, before, last]
  congr 1
  refine List.filter_congr fun name resolved => ?_
  obtain rfl := eq_resolve_of_resolved? (Option.mem_toList.mp resolved)
  rw [decide_eq_decide, mem_firstResolved, address?_eq_none, binding?_snoc, Request.bound?,
    if_pos rfl]
  cases binding? requests name <;> simp

/-- A symbol that is resolved without an address is the next variable, and no other request makes a
variable. -/
theorem allocated_snoc (requests : List Request) (request : Request) :
    allocated (requests ++ [request]) = allocated requests ++
      (request.resolved?.filter fun name => (address? requests name).isNone).toList := by
  rw [allocated, firstResolved_snoc]
  cases resolves : request.resolved? with
  | none => simp [allocated]
  | some name =>
    rw [Option.toList_some, List.filter_singleton, Option.filter_some]
    by_cases old : name ∈ firstResolved requests
    · have bound : address? requests name ≠ none := fun unbound =>
        Option.some_ne_none _
          ((mem_firstResolved.mp old).2.symm.trans (address?_eq_none.mp unbound).2)
      simp [old, eraseDups_snoc, allocated, bound]
    · by_cases unbound : address? requests name = none
      · simp [old, eraseDups_snoc, allocated, unbound]
      · simp [old, allocated, unbound]

/-- Variables stay in their order. -/
theorem exists_allocated_append (front back : List Request) :
    ∃ more, allocated (front ++ back) = allocated front ++ more := by
  induction back using List.reverseRecOn with
  | nil => exact ⟨[], by rw [List.append_nil, List.append_nil]⟩
  | append_singleton back last ih =>
    obtain ⟨more, before⟩ := ih
    rw [← List.append_assoc, allocated_snoc, before, List.append_assoc]
    exact ⟨_, rfl⟩

theorem address?_of_predefined (fixed : predefinedSymbols.lookup name = some address)
    (requests : List Request) : address? requests name = some address := by
  rw [address?, fixed, Option.some_or]

theorem address?_of_mem_allocated (inside : name ∈ allocated requests) :
    address? requests name = some (Platform.variableBase + (allocated requests).idxOf name) := by
  obtain ⟨fixed, found⟩ := mem_allocated.mp inside
  rw [address?, fixed, Option.none_or, found, Option.map_some]

/-- A request keeps the addresses that symbols have, and the next cell goes to the next variable. -/
theorem address?_snoc (requests : List Request) (request : Request) (name : String) :
    address? (requests ++ [request]) name = (address? requests name).or
      (request.grant? (Platform.variableBase + (allocated requests).length) name) := by
  cases fixed : predefinedSymbols.lookup name with
  | some cell => simp only [address?, fixed, Option.some_or]
  | none =>
    cases found : binding? requests name with
    | some first =>
      have kept : binding? (requests ++ [request]) name = some first := by
        rw [binding?_snoc, found, Option.some_or]
      match first, bound_of_binding? found with
      | .define _ address, _ =>
        simp only [address?, fixed, found, kept, Option.none_or, Option.map_some, Option.some_or]
      | .resolve _, rfl =>
        have old : name ∈ allocated requests := mem_allocated.mpr ⟨fixed, found⟩
        have inside : name ∈ allocated (requests ++ [request]) := mem_allocated.mpr ⟨fixed, kept⟩
        rw [address?_of_mem_allocated old, address?_of_mem_allocated inside, allocated_snoc,
          List.idxOf_append_of_mem old, Option.some_or]
    | none =>
      have unbound : address? requests name = none := address?_eq_none.mpr ⟨fixed, found⟩
      rw [unbound, Option.none_or]
      cases request with
      | get other =>
        exact address?_eq_none.mpr ⟨fixed, by rw [binding?_snoc, found]; rfl⟩
      | define other address =>
        rw [address?, fixed, Option.none_or, binding?_snoc, found, Option.none_or, Request.bound?,
          Request.grant?]
        by_cases same : other = name <;> simp [same]
      | resolve other =>
        rw [Request.grant?]
        by_cases same : other = name
        · subst same
          have binds : binding? (requests ++ [.resolve other]) other = some (.resolve other) := by
            rw [binding?_snoc, found, Option.none_or]
            exact if_pos rfl
          have inside : other ∈ allocated (requests ++ [.resolve other]) :=
            mem_allocated.mpr ⟨fixed, binds⟩
          have new : other ∉ allocated requests := fun old =>
            Option.some_ne_none _ ((mem_allocated.mp old).2.symm.trans found)
          have last : allocated (requests ++ [.resolve other]) = allocated requests ++ [other] := by
            rw [allocated_snoc, Request.resolved?, Option.filter_some, unbound]
            rfl
          rw [address?_of_mem_allocated inside, last, List.idxOf_append_of_notMem new,
            List.idxOf_cons_self, Nat.add_zero, if_pos rfl]
        · rw [if_neg same, address?_eq_none, binding?_snoc, found]
          simp [fixed, Request.bound?, same]

theorem address?_getElem {k : Nat} (there : (allocated requests)[k]? = some name) :
    address? requests name = some (Platform.variableBase + k) := by
  obtain ⟨inside, rfl⟩ := List.getElem?_eq_some_iff.mp there
  rw [address?_of_mem_allocated (List.getElem_mem inside), (nodup_allocated requests).idxOf_getElem]

/-- Addresses are words as long as the cells of all variables are. -/
theorem address?_lt (few : (allocated requests).length ≤ 65520)
    (bound : address? requests name = some address) : address < 65536 := by
  rcases Option.or_eq_some_iff.mp bound with fixed | ⟨unfixed, added⟩
  · exact Nat.lt_of_le_of_lt (Lines.predefined_le fixed) (by decide)
  · obtain ⟨first, found, gives⟩ := Option.map_eq_some_iff.mp added
    match first, bound_of_binding? found with
    | .define _ word, _ =>
      cases gives
      exact word.isLt
    | .resolve _, rfl =>
      cases gives
      have place := List.idxOf_lt_length_of_mem (mem_allocated.mpr ⟨unfixed, found⟩)
      show 16 + (allocated requests).idxOf name < 65536
      omega

end History

/-! ### The table that the requests describe -/

open History

/-- A table that holds the addresses and counts the variables of a history of requests. -/
structure Reflects (table : SymbolTable) (requests : List Request) : Prop where
  get? : ∀ name, table.get? name = address? requests name
  count : table.variableCount = (allocated requests).length

theorem reflects_nil : ({} : SymbolTable).Reflects [] where
  get? name := by simp [SymbolTable.get?, address?, binding?]
  count := rfl

theorem Reflects.serve (h : table.Reflects requests) (request : Request) :
    (table.serve request).Reflects (requests ++ [request]) where
  get? name := by
    rw [get?_serve, nextVariable, h.get?, h.count, address?_snoc]
  count := by
    rw [variableCount_serve, allocated_snoc, List.length_append, h.count]
    simp only [h.get?]

theorem reflects_ofRequests (requests : List Request) :
    (ofRequests requests).Reflects requests := by
  induction requests using List.reverseRecOn with
  | nil => exact reflects_nil
  | append_singleton front last ih =>
    rw [ofRequests_append]
    exact ih.serve last

theorem lookup_of_mem_predefinedSymbols :
    ∀ entry ∈ predefinedSymbols, predefinedSymbols.lookup entry.1 = some entry.2 := by
  decide

/-- After any history of requests with fewer than 65520 variables, the predefined symbols have their
addresses, what has an address keeps it, only an unbound label can be defined, and the variables
have the cells from 16 on in the order in which they were first resolved. The counter and all
addresses were words throughout. -/
theorem addresses_of_history (requests : List Request)
    (few : (allocated requests).length < 65520) :
    (∀ name, (ofRequests requests).get? name = address? requests name) ∧
    (predefinedSymbols.length = 23 ∧ ∀ entry ∈ predefinedSymbols,
      (ofRequests requests).get? entry.1 = some entry.2) ∧
    (∀ front back name address, requests = front ++ back →
      (ofRequests front).get? name = some address →
        (ofRequests requests).get? name = some address ∧
        (ofRequests requests).resolve name = (address, ofRequests requests)) ∧
    (∀ name, ((ofRequests requests).resolve name).2.get? name =
      some ((ofRequests requests).resolve name).1) ∧
    (∀ name (address : Word),
      ((∃ after, (ofRequests requests).define name address.toNat = .ok after) ↔
        (ofRequests requests).get? name = none) ∧
      (∀ after, (ofRequests requests).define name address.toNat = .ok after →
        after.get? name = some address.toNat) ∧
      ∀ bound, (ofRequests requests).get? name = some bound →
        (ofRequests requests).define name address.toNat = .error (.labelInUse name bound) ∧
        (ofRequests requests).serve (.define name address) = ofRequests requests) ∧
    (allocated requests).Nodup ∧
    (∀ k name, (allocated requests)[k]? = some name →
      (ofRequests requests).get? name = some (16 + k)) ∧
    (ofRequests requests).variableCount = (allocated requests).length ∧
    ∀ front back, requests = front ++ back →
      (ofRequests front).nextVariable < 65536 ∧
      ∀ name address, (ofRequests front).get? name = some address → address < 65536 := by
  have reflects := reflects_ofRequests requests
  refine ⟨reflects.get?, ⟨rfl, fun entry inside => ?_⟩, ?_, fun name => ?_,
    fun name address => ⟨define_eq_ok_iff .., fun after defined => ?_, fun bound there =>
      ⟨define_of_bound there _, serve_define_of_bound there _⟩⟩,
    nodup_allocated requests, fun k name there => ?_, reflects.count, ?_⟩
  · rw [reflects.get?]
    exact address?_of_predefined (lookup_of_mem_predefinedSymbols entry inside) requests
  · rintro front back name address rfl bound
    have kept := get?_foldl_serve back bound
    rw [← ofRequests_append] at kept
    exact ⟨kept, resolve_of_bound kept⟩
  · rw [get?_resolve, if_pos rfl]
  · rw [get?_define defined, if_pos rfl]
  · rw [reflects.get?, address?_getElem there]
    rfl
  · rintro front back rfl
    obtain ⟨more, whole⟩ := exists_allocated_append front back
    rw [whole, List.length_append] at few
    have before := reflects_ofRequests front
    have base : Platform.variableBase = 16 := rfl
    refine ⟨?_, fun name address bound => ?_⟩
    · rw [nextVariable, before.count]
      omega
    · rw [before.get?] at bound
      exact address?_lt (by omega) bound

/-- Labels that are defined twice, that are predefined or that are variables already do not change
the cells of variables. -/
theorem addresses_of_history_mixed :
    let requests : List Request := [.get "i", .resolve "i", .define "LOOP" 4, .define "LOOP" 9,
      .resolve "R2", .define "i" 7, .define "SP" 9, .resolve "LOOP", .resolve "Main.0",
      .resolve "i", .resolve "END"]
    allocated requests = ["i", "Main.0", "END"] ∧
      (ofRequests requests).get? "LOOP" = some 4 ∧ (ofRequests requests).get? "SP" = some 0 ∧
      (ofRequests requests).get? "i" = some 16 ∧ (ofRequests requests).get? "Main.0" = some 17 ∧
      (ofRequests requests).get? "END" = some 18 ∧ (ofRequests requests).variableCount = 3 := by
  intro requests
  have names : allocated requests = ["i", "Main.0", "END"] := by decide
  have few : (allocated requests).length < 65520 := by rw [names]; decide
  obtain ⟨addresses, ⟨-, predefined⟩, -, -, -, -, cells, count, -⟩ :=
    addresses_of_history requests few
  refine ⟨names, ?_, predefined ("SP", 0) (by decide), cells 0 _ (by rw [names]; rfl),
    cells 1 _ (by rw [names]; rfl), cells 2 _ (by rw [names]; rfl), ?_⟩
  · rw [addresses]
    decide
  · rw [count, names]
    rfl

end SymbolTable

end HackToolchain
