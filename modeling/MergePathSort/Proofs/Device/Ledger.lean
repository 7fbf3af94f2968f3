import Mathlib.Data.List.Nodup
import MergePathSort.Proofs.Device.Buffers

/-!
# The ledger of a pool

Buffers are created, looked up, read and released in any order, by names that may be stale, repeated or made up. A
request is performed in steps that change the pool, and what a step has changed stays changed if a later one fails. A
ledger is kept beside the pool. It notes every buffer that was returned, with what it was created from, and every name
that was released; a buffer is live from the one to the other. The pool holds the live buffers and nothing else, under
numbers of which none is ever handed out again, and a request that fails leaves the pool as it was.

## Main definitions

* `Pool.Request`, `Pool.Request.perform` : what can be asked of a pool, and the steps that meet it.
* `Pool.Request.answer` : the reply and the pool after it.
* `Pool.Ledger`, `Pool.history` : the ledger, and what a sequence of requests leaves.
* `Pool.Effect` : what a request that is met can do.
* `Pool.Follows` : the invariant, a pool that holds what its ledger says.
* `Pool.Accounted` : what the ledger promises.

## Main results

* `Pool.Request.run_perform` : a request does what it is answered with, and if it fails it does nothing.
* `Pool.Follows.step`, `Pool.follows_history` : every request keeps the invariant, and so does a history.
* `Pool.accounted_history` : the promises hold after every history.
* `Pool.not_read_succeeds_or_refused` : reading a buffer as elements of another size can fault.
-/

namespace MergePathSort

namespace Pool

/-! ### Requests -/

/-- What can be asked of a pool. -/
inductive Request : Type 1 where
  /-- A new buffer with given elements. -/
  | upload {κ : Type} [Element κ] (data : Array κ)
  /-- A new buffer with room for some elements. -/
  | reserve (κ : Type) [Element κ] (len : Nat)
  /-- The bytes of a buffer. -/
  | contents (name : BufferName)
  /-- The elements of a buffer. -/
  | read (κ : Type) [Element κ] (name : BufferName)
  /-- A buffer is given back. -/
  | free (name : BufferName)
  /-- All buffers are given back. -/
  | freeAll

/-- What a pool replies, as far as a ledger notes it. -/
inductive Reply where
  /-- A buffer has been created. -/
  | made (name : BufferName)
  /-- The request has been met. -/
  | done
  /-- That many buffers have been given back. -/
  | count (n : Nat)

/-- Performs a request. What has been changed when a step fails stays changed. -/
def Request.perform : Request → Stateful Pool Reply
  | @Request.upload κ _ data => return .made (← register data.size (Element.width κ) (encode data))
  | @Request.reserve κ _ len => do
    let bytes ← Stateful.ofOutcome (Size.mul (room len) (Element.width κ))
    Stateful.ofOutcome (Buffer.requireRoom bytes 1)
    return .made (← register len (Element.width κ) ((← get).fresh bytes))
  | .contents name => do
    let _ ← Stateful.ofOutcome ((← get).contents name)
    return .done
  | @Request.read κ _ name => do
    let _ ← Stateful.ofOutcome ((← get).read κ name)
    return .done
  | .free name => do
    release name
    return .done
  | .freeAll => do
    let count := (← get).liveCount
    modify fun pool => { pool with allocated := [] }
    return .count count

/-- The reply to a request, and the pool after it. -/
def Request.answer (pool : Pool) : Request → Outcome (Reply × Pool)
  | @Request.upload _ _ data => .ok (.made (pool.upload data).1, (pool.upload data).2)
  | @Request.reserve κ _ len => do
    let (name, pool) ← pool.reserve κ len
    return (.made name, pool)
  | .contents name => do
    let _ ← pool.contents name
    return (.done, pool)
  | @Request.read κ _ name => do
    let _ ← pool.read κ name
    return (.done, pool)
  | .free name => do return (.done, ← pool.free name)
  | .freeAll => .ok (.count pool.freeAll.1, pool.freeAll.2)

section Perform

variable (pool : Pool)

/-- A buffer is taken out, or there was none and the pool is as it was. -/
theorem run_release (name : BufferName) :
    (release name).run pool = match pool.free name with
      | .ok freed => (.ok (), freed)
      | .error failure => (.error failure, pool) := by
  rw [release, Stateful.run_bind_of_eq_ok Stateful.run_get]
  by_cases hany : pool.allocated.any (·.1 == name) = true
  · simp only [Pool.free, hany, if_true]
    rfl
  · -- What is not there is not missing afterwards.
    have hkeep : pool.allocated.filter (·.1 != name) = pool.allocated :=
      List.filter_eq_self.mpr fun entry hentry => bne_iff_ne.mpr fun heq =>
        hany (List.any_eq_true.mpr ⟨entry, hentry, beq_iff_eq.mpr heq⟩)
    simp only [Pool.free, if_neg hany]
    exact congrArg (fun kept => (Outcome.refuse (unknown name), { pool with allocated := kept })) hkeep

/-- Performing a request is answering it, and if that fails the pool is as it was. -/
theorem Request.run_perform (request : Request) :
    request.perform.run pool = match request.answer pool with
      | .ok (reply, left) => (.ok reply, left)
      | .error failure => (.error failure, pool) := by
  cases request with
  | upload data => rfl
  | @reserve κ _ len =>
    simp only [perform, answer, Pool.reserve]
    rcases hbytes : Size.mul (room len) (Element.width κ) with failure | bytes
    · rfl
    · rw [Stateful.run_bind_of_eq_ok (Stateful.run_ofOutcome_of_eq_ok rfl pool), Outcome.ok_bind]
      cases Buffer.requireRoom bytes 1 <;> rfl
  | contents name =>
    simp only [perform, answer]
    rw [Stateful.run_bind_of_eq_ok Stateful.run_get]
    cases pool.contents name <;> rfl
  | read κ name =>
    simp only [perform, answer]
    rw [Stateful.run_bind_of_eq_ok Stateful.run_get]
    cases pool.read κ name <;> rfl
  | free name =>
    have hrelease := run_release pool name
    simp only [perform, answer]
    rcases hfree : pool.free name with failure | freed
    · rw [hfree] at hrelease
      exact Stateful.run_bind_of_eq_error hrelease _
    · rw [hfree] at hrelease
      exact Stateful.run_bind_of_eq_ok hrelease _
  | freeAll => rfl

end Perform

/-! ### Ledgers -/

/-- What a buffer was created from. -/
inductive Origin : Type 1 where
  /-- It was created with given elements. -/
  | given {κ : Type} [Element κ] (data : Array κ)
  /-- It was created with room for elements of a width. -/
  | blank (len width : Nat)

/-- The bytes that the buffer of a number starts with, where reserved buffers hold `unwritten`. -/
def Origin.bytes (unwritten : Nat → Nat → UInt8) (number : Nat) : Origin → Array UInt8
  | @Origin.given _ _ data => encode data
  | .blank len width => (Array.range (room len * width)).map (unwritten number)

/-- The name fits the elements that the buffer was created from. -/
def Origin.Names : Origin → BufferName → Prop
  | @Origin.given κ _ data, name => name.len = data.size ∧ name.width = Element.width κ
  | .blank len width, name => name.len = len ∧ name.width = width

/-- The buffers of a pool, as its callers see them. -/
structure Ledger : Type 1 where
  /-- The buffers that were returned, the last one first. -/
  returned : List (BufferName × Origin) := []
  /-- The names that were released. -/
  released : List BufferName := []

namespace Ledger

/-- The buffers that were returned and have not been released. -/
def live (ledger : Ledger) : List (BufferName × Origin) := ledger.returned.filter (·.1 ∉ ledger.released)

/-- The names of the live buffers. -/
def names (ledger : Ledger) : List BufferName := ledger.live.map Prod.fst

/-- Notes a request that has been met. -/
def note (ledger : Ledger) : Request → Reply → Ledger
  | @Request.upload _ _ data, .made name => { ledger with returned := (name, .given data) :: ledger.returned }
  | @Request.reserve κ _ len, .made name =>
    { ledger with returned := (name, .blank len (Element.width κ)) :: ledger.returned }
  | .free name, .done => { ledger with released := name :: ledger.released }
  | .freeAll, .count _ => { ledger with released := ledger.returned.map Prod.fst }
  | _, _ => ledger

end Ledger

/-- A pool and its ledger after one more request. A request that fails is not noted. -/
def Request.step (request : Request) (state : Pool × Ledger) : Pool × Ledger :=
  match request.perform.run state.1 with
  | (.ok reply, pool) => (pool, state.2.note request reply)
  | (.error _, pool) => (pool, state.2)

/-- A pool and its ledger after a sequence of requests, if the pool was new and reserved buffers hold `unwritten`. -/
def history (unwritten : Nat → Nat → UInt8) (requests : List Request) : Pool × Ledger :=
  requests.foldl (fun state request => request.step state) ({ unwritten }, {})

/-! ### Requests that are met -/

section Met

variable {pool pool' : Pool} {name : BufferName}

/-- What a request that is met can do to a pool, and what is noted of it. -/
inductive Effect (pool : Pool) (ledger : Ledger) : Pool → Ledger → Prop where
  /-- There is a new buffer. -/
  | inserted {len width : Nat} {origin : Origin} (hnames : origin.Names ⟨pool.nextNumber, len, width⟩) :
    Effect pool ledger (pool.insert len width (origin.bytes pool.unwritten pool.nextNumber)).2
      { ledger with returned := (⟨pool.nextNumber, len, width⟩, origin) :: ledger.returned }
  /-- Nothing changes. -/
  | kept : Effect pool ledger pool ledger
  /-- A buffer has been given back. -/
  | freed {name : BufferName} {pool' : Pool} (hfree : pool.free name = .ok pool') :
    Effect pool ledger pool' { ledger with released := name :: ledger.released }
  /-- All buffers have been given back. -/
  | cleared : Effect pool ledger pool.freeAll.2 { ledger with released := ledger.returned.map Prod.fst }

/-- A request that is met has one of these effects. -/
theorem Request.effect_of_answer {request : Request} {reply : Reply} (h : request.answer pool = .ok (reply, pool'))
    (ledger : Ledger) : Effect pool ledger pool' (ledger.note request reply) := by
  cases request with
  | upload data =>
    cases h
    exact .inserted (show (Origin.given data).Names _ from ⟨rfl, rfl⟩)
  | @reserve κ _ len =>
    obtain ⟨⟨name, made⟩, hreserve, h⟩ := Outcome.bind_eq_ok_iff.mp h
    cases h
    obtain ⟨rfl, rfl⟩ := Prod.mk.inj (eq_reserved_of_reserve hreserve)
    exact .inserted (show (Origin.blank len (Element.width κ)).Names _ from ⟨rfl, rfl⟩)
  | contents name =>
    obtain ⟨_, -, h⟩ := Outcome.bind_eq_ok_iff.mp h
    cases h
    exact .kept
  | read κ name =>
    obtain ⟨_, -, h⟩ := Outcome.bind_eq_ok_iff.mp h
    cases h
    exact .kept
  | free name =>
    obtain ⟨freed, hfree, h⟩ := Outcome.bind_eq_ok_iff.mp h
    cases h
    exact .freed hfree
  | freeAll =>
    cases h
    exact .cleared

end Met

/-! ### The invariant -/

/-- A pool holds what its ledger says. -/
structure Follows (pool : Pool) (ledger : Ledger) : Prop where
  /-- The buffers are the live ones, with the bytes that they were created with. -/
  allocated_eq :
    pool.allocated = ledger.live.map fun entry => (entry.1, entry.2.bytes pool.unwritten entry.1.number)
  /-- The numbers that were handed out are behind the next one. -/
  number_lt : ∀ entry ∈ ledger.returned, entry.1.number < pool.nextNumber
  /-- No number was handed out twice. -/
  numbers_nodup : (ledger.returned.map (·.1.number)).Nodup
  /-- What was released had been returned. -/
  released_returned : ∀ name ∈ ledger.released, name ∈ ledger.returned.map Prod.fst
  /-- Names fit what the buffers were created from. -/
  origin_names : ∀ entry ∈ ledger.returned, entry.2.Names entry.1

namespace Follows

variable {pool : Pool} {ledger : Ledger}

/-- The names in a pool are the live ones. -/
theorem map_fst_allocated (h : Follows pool ledger) : pool.allocated.map Prod.fst = ledger.names := by
  rw [h.allocated_eq, List.map_map, Ledger.names]
  rfl

/-- The names of live buffers are different. -/
theorem names_nodup (h : Follows pool ledger) : ledger.names.Nodup := by
  have hreturned : (ledger.returned.map Prod.fst).Nodup := by
    refine List.Nodup.of_map BufferName.number ?_
    rw [List.map_map]
    exact h.numbers_nodup
  exact hreturned.sublist (List.filter_sublist.map Prod.fst)

/-- A name leads somewhere exactly if it is live. -/
theorem bytes?_eq_none_iff (h : Follows pool ledger) {name : BufferName} :
    pool.bytes? name = none ↔ name ∉ ledger.names := by
  rw [← h.map_fst_allocated, ← exists_bytes?_iff, not_exists, Option.eq_none_iff_forall_ne_some]

/-- A live name leads to the bytes that the buffer was created with. -/
theorem bytes?_eq_some (h : Follows pool ledger) {name : BufferName} {origin : Origin}
    (hlive : (name, origin) ∈ ledger.live) :
    pool.bytes? name = some (origin.bytes pool.unwritten name.number) := by
  rcases hbytes : pool.bytes? name with _ | bytes
  · exact absurd (List.mem_map_of_mem hlive) (h.bytes?_eq_none_iff.mp hbytes)
  · rw [bytes?, Option.map_eq_some_iff] at hbytes
    obtain ⟨⟨found, _⟩, hfind, rfl⟩ := hbytes
    have hmem := List.mem_of_find?_eq_some hfind
    obtain rfl : found = name := by simpa using List.find?_some hfind
    rw [h.allocated_eq, List.mem_map] at hmem
    obtain ⟨⟨_, origin'⟩, hlive', heq⟩ := hmem
    cases heq
    have hsame : origin' = origin := congrArg Prod.snd (List.inj_on_of_nodup_map h.names_nodup hlive' hlive rfl)
    rw [hsame]

/-- A new buffer. Its name is live, for no released name has its number. -/
theorem insert (h : Follows pool ledger) {len width : Nat} {origin : Origin}
    (hnames : origin.Names ⟨pool.nextNumber, len, width⟩) :
    Follows (pool.insert len width (origin.bytes pool.unwritten pool.nextNumber)).2
      { ledger with returned := (⟨pool.nextNumber, len, width⟩, origin) :: ledger.returned } := by
  have hnew : (⟨pool.nextNumber, len, width⟩ : BufferName) ∉ ledger.released := by
    intro hreleased
    obtain ⟨entry, hentry, heq⟩ := List.mem_map.mp (h.released_returned _ hreleased)
    have hlt := h.number_lt entry hentry
    rw [heq] at hlt
    exact Nat.lt_irrefl _ hlt
  refine ⟨?_, ?_, ?_, ?_, ?_⟩
  · rw [Ledger.live, List.filter_cons_of_pos (by simpa using hnew), List.map_cons]
    exact congrArg (List.cons _) h.allocated_eq
  · exact List.forall_mem_cons.mpr ⟨Nat.lt_succ_self _, fun entry hentry => Nat.lt_succ_of_lt (h.number_lt entry hentry)⟩
  · rw [List.map_cons, List.nodup_cons]
    refine ⟨fun hmem => ?_, h.numbers_nodup⟩
    obtain ⟨entry, hentry, heq⟩ := List.mem_map.mp hmem
    exact Nat.ne_of_lt (h.number_lt entry hentry) heq
  · exact fun name hname => List.mem_cons_of_mem _ (h.released_returned name hname)
  · exact List.forall_mem_cons.mpr ⟨hnames, h.origin_names⟩

/-- A buffer that is given back is live no longer. -/
theorem free (h : Follows pool ledger) {name : BufferName} {freed : Pool} (hfree : pool.free name = .ok freed) :
    Follows freed { ledger with released := name :: ledger.released } := by
  obtain ⟨hlive, rfl⟩ := free_eq_ok_iff.mp hfree
  refine ⟨?_, h.number_lt, h.numbers_nodup, ?_, h.origin_names⟩
  · have hrest : ({ ledger with released := name :: ledger.released } : Ledger).live =
        ledger.live.filter (·.1 != name) := by
      rw [Ledger.live, Ledger.live, List.filter_filter]
      refine List.filter_congr fun entry _ => ?_
      by_cases hname : entry.1 = name <;> simp [hname]
    rw [hrest, h.allocated_eq, List.filter_map]
    rfl
  · refine List.forall_mem_cons.mpr ⟨?_, h.released_returned⟩
    rw [h.map_fst_allocated, Ledger.names] at hlive
    exact (List.filter_sublist.map Prod.fst).subset hlive

/-- When all buffers have been given back none is live. -/
theorem freeAll (h : Follows pool ledger) :
    Follows pool.freeAll.2 { ledger with released := ledger.returned.map Prod.fst } := by
  refine ⟨?_, h.number_lt, h.numbers_nodup, fun _ hname => hname, h.origin_names⟩
  have hnone : ({ ledger with released := ledger.returned.map Prod.fst } : Ledger).live = [] := by
    rw [Ledger.live, List.filter_eq_nil_iff]
    intro entry hentry
    simpa using ⟨entry.2, hentry⟩
  rw [hnone]
  rfl

/-- A request keeps the invariant. -/
theorem step (h : Follows pool ledger) (request : Request) :
    Follows (request.step (pool, ledger)).1 (request.step (pool, ledger)).2 := by
  rw [Request.step, Request.run_perform]
  rcases hanswer : request.answer pool with failure | ⟨reply, pool'⟩
  · exact h
  · have heffect := Request.effect_of_answer hanswer ledger
    simp only
    generalize ledger.note request reply = noted at heffect ⊢
    cases heffect with
    | inserted hnames => exact h.insert hnames
    | kept => exact h
    | freed hfree => exact h.free hfree
    | cleared => exact h.freeAll

end Follows

/-- What a history of requests leaves keeps the invariant. -/
theorem follows_history (unwritten : Nat → Nat → UInt8) (requests : List Request) :
    Follows (history unwritten requests).1 (history unwritten requests).2 := by
  have hrun : ∀ state : Pool × Ledger, Follows state.1 state.2 →
      Follows (requests.foldl (fun state request => request.step state) state).1
        (requests.foldl (fun state request => request.step state) state).2 := by
    induction requests with
    | nil => exact fun _ h => h
    | cons request requests ih => exact fun state h => ih (request.step state) (h.step request)
  exact hrun ({ unwritten }, {}) ⟨rfl, by simp, List.nodup_nil, by simp, by simp⟩

/-! ### The promises -/

/-- What a ledger promises of its pool. -/
structure Accounted (pool : Pool) (ledger : Ledger) : Prop where
  /-- No number was returned twice, released or not. -/
  numbers_nodup : (ledger.returned.map (·.1.number)).Nodup
  /-- The buffers that are counted are those returned and not released. -/
  liveCount_eq : pool.liveCount = ledger.live.length
  /-- A live name finds its buffer, and can be given back. -/
  live : ∀ name ∈ ledger.names, (∃ bytes, pool.contents name = .ok bytes) ∧ ∃ freed, pool.free name = .ok freed
  /-- Any other name is refused. -/
  dead : ∀ name ∉ ledger.names, pool.contents name = .refuse (unknown name) ∧
    pool.free name = .refuse (unknown name) ∧
    ∀ (κ : Type) [Element κ], pool.read κ name = .refuse (unknown name)
  /-- A live buffer is read if it holds a whole number of elements of the type that is asked for. -/
  read : ∀ name ∈ ledger.names, ∀ (κ : Type) [Element κ] (bytes : Array UInt8), pool.contents name = .ok bytes →
    if bytes.size % Element.width κ = 0 then ∃ data, pool.read κ name = .ok data else pool.read κ name = .fault .index
  /-- It does if these have the width of its own elements. -/
  read_own : ∀ name ∈ ledger.names, ∀ (κ : Type) [Element κ], Element.width κ = name.width →
    ∃ data, pool.read κ name = .ok data
  /-- A live buffer that was created with elements holds these. -/
  read_given : ∀ (κ : Type) [Element κ] [LawfulElement κ] (name : BufferName) (data : Array κ),
    (name, .given data) ∈ ledger.live → pool.read κ name = .ok data
  /-- A request that fails leaves the pool as it was, whatever its steps have done, and is not noted. -/
  failed : ∀ (request : Request) (failure : Failure) (left : Pool),
    request.perform.run pool = (.error failure, left) → left = pool ∧ request.step (pool, ledger) = (pool, ledger)
  /-- Giving all buffers back says how many there were, and leaves none live. -/
  freeAll : Request.freeAll.perform.run pool = (.ok (.count pool.liveCount), { pool with allocated := [] }) ∧
    (Request.freeAll.step (pool, ledger)).2.names = []

/-- The bytes of elements. -/
theorem size_encode {κ : Type} [Element κ] (data : Array κ) : (encode data).size = data.size * Element.width κ := by
  rw [← Array.length_toList, toList_encode, List.length_flatMap,
    List.map_congr_left fun x _ => Element.length_toBytes x, List.map_const', List.sum_replicate_nat,
    Array.length_toList]

/-- A buffer starts with a whole number of elements of its width. -/
theorem Origin.Names.size_mod {origin : Origin} {name : BufferName} (h : origin.Names name)
    (unwritten : Nat → Nat → UInt8) (number : Nat) :
    (origin.bytes unwritten number).size % name.width = 0 := by
  cases origin with
  | given data => rw [h.2, Origin.bytes, size_encode, Nat.mul_mod_left]
  | blank len width => rw [h.2, Origin.bytes, Array.size_map, Array.size_range, Nat.mul_mod_left]

/-- Reading a buffer whose bytes are known. -/
theorem read_of_contents {pool : Pool} {name : BufferName} {bytes : Array UInt8} (κ : Type) [Element κ]
    (h : pool.contents name = .ok bytes) :
    if bytes.size % Element.width κ = 0 then ∃ data, pool.read κ name = .ok data
      else pool.read κ name = .fault .index := by
  rw [Pool.read, elements, h, Outcome.ok_bind, decode]
  split
  · exact ⟨_, rfl⟩
  · rfl

namespace Follows

variable {pool : Pool} {ledger : Ledger}

/-- A live name finds the bytes that its buffer was created with. -/
theorem contents_eq_ok (h : Follows pool ledger) {name : BufferName} (hname : name ∈ ledger.names) :
    ∃ origin, (name, origin) ∈ ledger.live ∧ origin.Names name ∧
      pool.contents name = .ok (origin.bytes pool.unwritten name.number) := by
  obtain ⟨⟨_, origin⟩, hlive, rfl⟩ := List.mem_map.mp hname
  exact ⟨origin, hlive, h.origin_names _ (List.mem_filter.mp hlive).1, contents_eq_ok_iff.mpr (h.bytes?_eq_some hlive)⟩

/-- A name that is not live is refused. -/
theorem contents_eq_refuse (h : Follows pool ledger) {name : BufferName} (hname : name ∉ ledger.names) :
    pool.contents name = .refuse (unknown name) := by
  have hnone := h.bytes?_eq_none_iff.mpr hname
  rw [bytes?, Option.map_eq_none_iff] at hnone
  rw [Pool.contents, hnone]

/-- The invariant gives what the ledger promises. -/
theorem accounted (h : Follows pool ledger) : Accounted pool ledger where
  numbers_nodup := h.numbers_nodup
  liveCount_eq := by rw [liveCount, h.allocated_eq, List.length_map]
  live name hname := by
    obtain ⟨origin, -, -, hcontents⟩ := h.contents_eq_ok hname
    rw [← h.map_fst_allocated] at hname
    exact ⟨⟨_, hcontents⟩, ⟨_, free_eq_ok_iff.mpr ⟨hname, rfl⟩⟩⟩
  dead name hname := by
    have hcontents := h.contents_eq_refuse hname
    refine ⟨hcontents, ?_, fun κ _ => ?_⟩
    · rw [← h.map_fst_allocated] at hname
      rw [Pool.free, if_neg]
      rintro hany
      obtain ⟨entry, hentry, heq⟩ := List.any_eq_true.mp hany
      exact hname (List.mem_map.mpr ⟨entry, hentry, by simpa using heq⟩)
    · rw [Pool.read, elements, hcontents]
      rfl
  read _ _ κ _ _ hcontents := read_of_contents κ hcontents
  read_own name hname κ _ hwidth := by
    obtain ⟨origin, -, hnames, hcontents⟩ := h.contents_eq_ok hname
    have hread := read_of_contents κ hcontents
    rwa [hwidth, if_pos (hnames.size_mod _ _)] at hread
  read_given κ _ _ name data hlive := by
    have hnames : (Origin.given data).Names name := h.origin_names _ (List.mem_filter.mp hlive).1
    rw [Pool.read, elements, contents_eq_ok_iff.mpr (h.bytes?_eq_some hlive), Outcome.ok_bind, Origin.bytes,
      decode_encode, Outcome.ok_bind, hnames.1]
    simp
  failed request failure left hfailed := by
    have hstep : request.step (pool, ledger) = (left, ledger) := by rw [Request.step, hfailed]
    rw [Request.run_perform] at hfailed
    split at hfailed <;> cases hfailed
    exact ⟨rfl, hstep⟩
  freeAll := by
    refine ⟨rfl, ?_⟩
    rw [← (h.step .freeAll).map_fst_allocated]
    rfl

end Follows

/-- After any requests in any order, with any names, the ledger's promises hold: no number is handed out twice, the
live buffers are those that were returned and not released, exactly these are found and can be given back, what they were
created with is read back, and a request that fails changes nothing. What reserved buffers hold does not matter. -/
theorem accounted_history (unwritten : Nat → Nat → UInt8) (requests : List Request) :
    Accounted (history unwritten requests).1 (history unwritten requests).2 :=
  (follows_history unwritten requests).accounted

/-- Reading a live buffer neither succeeds nor is refused if its bytes are no whole number of the elements that are asked
for: here three bytes are read as words. -/
theorem not_read_succeeds_or_refused :
    ¬∀ (unwritten : Nat → Nat → UInt8) (requests : List Request) (κ : Type) [Element κ],
      ∀ name ∈ (history unwritten requests).2.names,
        (∃ data, (history unwritten requests).1.read κ name = .ok data) ∨
          (history unwritten requests).1.read κ name = .refuse (unknown name) := by
  intro h
  let requests : List Request := [.upload (#[1, 2, 3] : Array UInt8)]
  have hlive : (⟨0, 3, 1⟩ : BufferName) ∈ (history (fun _ _ => 0) requests).2.names := by decide
  have hcontents : (history (fun _ _ => 0) requests).1.contents ⟨0, 3, 1⟩ = .ok #[1, 2, 3] := by decide
  have hread : (history (fun _ _ => 0) requests).1.read UInt32 ⟨0, 3, 1⟩ = .fault .index :=
    read_of_contents UInt32 hcontents
  rcases h (fun _ _ => 0) requests UInt32 _ hlive with ⟨data, hdata⟩ | hrefused
  · rw [hread] at hdata
    exact Outcome.fault_ne_ok _ _ hdata
  · rw [hread] at hrefused
    cases hrefused

end Pool

end MergePathSort
