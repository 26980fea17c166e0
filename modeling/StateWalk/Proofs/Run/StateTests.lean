import StateWalk.Proofs.Machine.Choice
import StateWalk.Proofs.Run.Replay

/-!
# Tests of states

Which tests verify a state, as long as nobody says otherwise: for a snapshot of a machine those that are
registered under the path of an active node, for a state without nodes those under its own key
(`Selects`). They are called in the order of their registration, up to the first that fails (`VerifiedBy`).
The wildcard stands in where nothing else is registered that applies.
-/

namespace StateWalk.Model

variable {σ κ γ ω : Type}

/-- The tests that verify a state: those registered under the keys that apply to it, in the order of their
registration, and if there are none, that of the wildcard. -/
inductive Selects (registered : List (String × StateTest σ γ ω)) (applies : String → Bool) :
    List (StateTest σ γ ω) → Prop where
  | applying : (registered.filter fun test => test.1 ≠ wildcard && applies test.1) ≠ [] →
    Selects registered applies
      ((registered.filter fun test => test.1 ≠ wildcard && applies test.1).map Prod.snd)
  | fallback : (registered.filter fun test => test.1 ≠ wildcard && applies test.1) = [] →
    Selects registered applies (Keyed.find? registered wildcard).toList

section

variable [KeyType κ]

/-- Verifying a state calls these tests one after the other. Either all of them succeed and the rest is done as
if no test were registered, or it ends with the first that fails. -/
def VerifiedBy (o : Options σ κ γ ω) (b : Behavior σ κ) (s : σ) (context : γ)
    (tests : List (StateTest σ γ ω)) : Prop :=
  ∀ session : Session σ κ ω,
    (∃ w, Succeed (tests.map fun test => test s context) session.world w ∧
      (o.checkState b s context).run session =
        (Options.checkState { o with stateTests := [] } b s context).run { session with world := w }) ∨
    ∃ before test after mid f w, tests = before ++ test :: after ∧
      Succeed (before.map fun test => test s context) session.world mid ∧ test s context mid = (.error f, w) ∧
      (o.checkState b s context).run session = (.error f, { session with world := w })

variable {o : Options σ κ γ ω} {b : Behavior σ κ} {s : σ}

theorem verifiedBy_of_selectedTests {tests : List (StateTest σ γ ω)} (h : o.selectedTests b s = .ok tests)
    (context : γ) : VerifiedBy o b s context tests := by
  intro session
  have whole : o.checkState b s context = ((tests.map fun test => test s context).forM Check.act) >>= fun _ =>
      Options.checkState { o with stateTests := [] } b s context := by
    have untested : Options.selectedTests { o with stateTests := [] } b s = .ok [] := rfl
    simp only [Options.checkState, h, untested, Check.ofExcept_ok, pure_bind, List.forM_eq_forM, List.forM_nil,
      List.forM_map]
  rw [whole, run_bind]
  obtain ⟨w, succeed, run⟩ | ⟨before, call, after, mid, f, w, split, succeed, failed, run⟩ :=
    forM_act_split (tests.map fun test => test s context) session
  · rw [run]
    exact .inl ⟨w, succeed, rfl⟩
  · rw [run]
    obtain ⟨before, rest, rfl, rfl, stop⟩ := List.map_eq_append_iff.1 split
    obtain ⟨test, after, rfl, rfl, rfl⟩ := List.map_eq_cons_iff.1 stop
    exact .inr ⟨before, test, after, mid, f, w, rfl, succeed, failed, rfl⟩

/-- What the default matcher answers decides which tests verify the state. -/
theorem exists_verifiedBy {answer : String → Bool} (unset : o.matcher = none)
    (answers : ∀ key, o.defaultMatcher b s key = .ok (answer key)) (context : γ) :
    ∃ tests, Selects o.stateTests answer tests ∧ VerifiedBy o b s context tests := by
  have matched : Options.matching ((o.matcher.getD (o.defaultMatcher b)) s) o.stateTests =
      .ok ((o.stateTests.filter fun test => test.1 ≠ wildcard && answer test.1).map Prod.snd) := by
    rw [unset]
    exact Directions.matching_eq_ok fun test _ _ => answers test.1
  cases applying : o.stateTests.filter fun test => test.1 ≠ wildcard && answer test.1 with
  | nil =>
    refine ⟨_, .fallback applying, verifiedBy_of_selectedTests ?_ context⟩
    rw [Options.selectedTests, matched, applying]
    rfl
  | cons test tests =>
    refine ⟨_, .applying (by rw [applying]; exact List.cons_ne_nil _ _), verifiedBy_of_selectedTests ?_ context⟩
    rw [Options.selectedTests, matched, applying]
    rfl

end

/-- **A state is verified by the tests of its active nodes.** In a machine that was made from a definition, the
paths of a state that events lead to are those of its leaf, of the parent of the leaf and so on, each once, and
the root has none. As long as no matcher is set, its tests are those under these paths. A state that has no
nodes to ask for is verified by the test under its own key. -/
theorem verified_by_active_paths {d : Machine.MachineDefinition} {m : Machine}
    (made : Machine.ofDefinition d = .ok m) (distinct : d.root.DistinctKeys) {events : List Event}
    {s : Snapshot} (run : m.behavior.runFrom m.initial events = .ok s) :
    (∃ path n, m.leaf s.value = .ok path ∧ m.root.at? path = some n ∧ n.children = [] ∧
      s.paths = path.inits.tail.reverse.map Text.dotted) ∧
    s.paths.Nodup ∧
    (∀ {γ ω : Type} (o : Options Snapshot String γ ω) (context : γ), o.matcher = none →
      ∃ tests, Selects o.stateTests (fun key => key ∈ s.paths) tests ∧
        VerifiedBy o m.behavior s context tests) ∧
    ∀ {σ κ γ ω : Type} [KeyType κ] (o : Options σ κ γ ω) (b : Behavior σ κ) (t : σ) (k : κ) (context : γ),
      o.matcher = none → b.hasActive t = none → o.stateKey t none = .ok k →
        ∃ tests, Selects o.stateTests (fun key => KeyType.equals k (KeyType.ofText key)) tests ∧
          VerifiedBy o b t context tests := by
  obtain ⟨path, denotes⟩ := Machine.exists_denotes made distinct run
  obtain ⟨n, here, childless⟩ := denotes.childless
  have paths := Machine.paths_eq denotes.eq
  refine ⟨⟨path, n, denotes.leaf, here, childless, ?_⟩, ?_, ?_, ?_⟩
  · rw [paths, Text.dottedBeginnings_eq]
  · rw [paths]
    exact Text.nodup_dottedBeginnings path
  · intro γ ω o context unset
    refine exists_verifiedBy unset (fun key => ?_) context
    change Except.ok (s.paths.contains key) = _
    rw [List.contains_eq_mem]
  · intro σ κ γ ω _ o b t k context unset nodeless keyed
    refine exists_verifiedBy unset (fun key => ?_) context
    rw [Options.defaultMatcher, nodeless, keyed]
    rfl

/-! ## A parcel, and a carousel -/

def parcelOptions : Options Snapshot String String CallLog :=
  { Search.Options.ofKey Snapshot.key with
    stateTests := [("travelling", fun _ => note "under way"), (wildcard, fun _ => note "lost"),
      ("delivered", fun _ => note "signed for"), ("travelling.customs", fun _ => note "at the customs")]
    generator := Search.shortestPlans }

/-- A parcel at the customs is verified by the tests of two nodes, and a carousel at its second place by the
test under the key of this place. -/
theorem parcel_and_carousel_verified :
    VerifiedBy parcelOptions Machine.parcelMachine.behavior Machine.parcelMachine.initial "post"
      [fun _ => note "under way", fun _ => note "at the customs"] ∧
    VerifiedBy rideOptions Search.carousel (.second, 1) "page" [fun _ => note "at second"] := by
  have run : Machine.parcelMachine.behavior.runFrom Machine.parcelMachine.initial [] =
      .ok Machine.parcelMachine.initial := by
    rfl
  obtain ⟨-, -, snapshots, others⟩ :=
    verified_by_active_paths Machine.parcel_made Machine.parcel_distinctKeys run
  obtain ⟨tests, selects, verified⟩ := snapshots parcelOptions "post" rfl
  obtain ⟨rideTests, rideSelects, rideVerified⟩ :=
    others rideOptions Search.carousel (.second, 1) "second" "page" rfl rfl rfl
  constructor
  · cases selects with
    | applying => exact verified
    | fallback none => cases congrArg List.length none
  · cases rideSelects with
    | applying => exact rideVerified
    | fallback none => cases congrArg List.length none

end StateWalk.Model
