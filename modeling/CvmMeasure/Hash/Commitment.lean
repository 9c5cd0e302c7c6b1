import CvmMeasure.Hash.Chain

/-! # Registers over hashed payloads

A register of a measured boot is extended with the hashes of payloads, or with digests that come from
elsewhere. Either way it commits to what it was extended with, as far as the hash holds on the inputs that
were evaluated.

* **`FailsOn`**: the hash fails on some inputs: a collision among them, or one of them hashes to the
  value chains start from;
* **`UpTo`**: a proposition, unless the hash fails on the given inputs. `UpTo.bind` composes such
  statements, so that several registers are argued about one after the other;
* **`Link`**, **`chainOf`**: one extend, and a register over such extends;
* **`chainOf_binding`**: equal registers have equal links, up to a failure, if hashed and given links
  stand in the same places;
* **`commit`**, **`commit_binding`**: the same where all links are hashed. -/

namespace CvmMeasure.Hash

universe u v

variable {σ : Type u} (H : List σ → List σ) (init : List σ)

/-- The hash fails on these inputs. -/
def FailsOn (inputs : List (List σ)) : Prop := Collision H inputs ∨ ∃ x ∈ inputs, H x = init

/-- The proposition holds, unless the hash fails on these inputs. -/
def UpTo (inputs : List (List σ)) (P : Prop) : Prop := P ∨ FailsOn H init inputs

variable {H init} {xs ys : List (List σ)} {P Q : Prop}

/-- A failure on some inputs is one on more. -/
theorem FailsOn.mono (h : FailsOn H init xs) (hsub : xs ⊆ ys) : FailsOn H init ys := by
  rcases h with hcol | ⟨x, hx, hinit⟩
  · exact Or.inl (hcol.mono hsub)
  · exact Or.inr ⟨x, hsub hx, hinit⟩

/-! ## Statements up to a failure -/

namespace UpTo

/-- What holds, holds up to any failure. -/
theorem intro (h : P) : UpTo H init xs P := Or.inl h

/-- More inputs may fail. -/
theorem mono (h : UpTo H init xs P) (hsub : xs ⊆ ys) : UpTo H init ys P :=
  h.imp id fun hfail => hfail.mono hsub

/-- What follows from a property follows up to the same failure. -/
theorem imp (h : UpTo H init xs P) (hPQ : P → Q) : UpTo H init xs Q := Or.imp_left hPQ h

/-- What follows from the first statement up to a failure follows up to a failure. -/
theorem bind (h : UpTo H init xs P) (hQ : P → UpTo H init xs Q) : UpTo H init xs Q := by
  rcases h with hP | hfail
  · exact hQ hP
  · exact Or.inr hfail

/-- Two properties up to the same failure. -/
theorem and (hP : UpTo H init xs P) (hQ : UpTo H init xs Q) : UpTo H init xs (P ∧ Q) :=
  hP.bind fun p => hQ.imp fun q => ⟨p, q⟩

/-- Finitely many statements are one. -/
theorem forall_mem {ι : Type v} {is : List ι} {P : ι → Prop} (h : ∀ i ∈ is, UpTo H init xs (P i)) :
    UpTo H init xs (∀ i ∈ is, P i) := by
  induction is with
  | nil => exact intro fun _ hi => absurd hi List.not_mem_nil
  | cons i is ih =>
    obtain ⟨hhead, htail⟩ := List.forall_mem_cons.mp h
    refine (hhead.and (ih htail)).imp fun hall => ?_
    exact List.forall_mem_cons.mpr hall

end UpTo

/-- Inputs with one hash are equal. -/
theorem hash_binding {a b : List σ} (ha : a ∈ xs) (hb : b ∈ xs) (h : H a = H b) :
    UpTo H init xs (a = b) :=
  (eq_or_collision ha hb h).imp_right Or.inl

/-- Chains with one end value have the same digests. -/
theorem chain_binding {w : Nat} (hH : ∀ x, (H x).length = w) (hinit : init.length = w)
    {ds ds' : List (List σ)} (h : replay H init ds = replay H init ds') :
    UpTo H init (replayInputs H init ds ++ replayInputs H init ds') (ds = ds') :=
  replay_binding hH hinit ds ds' h

/-! ## Links -/

/-- What a register is extended with: the hash of a payload, or a digest that is given. -/
inductive Link (σ : Type u) where
  | hashed (payload : List σ)
  | given (digest : List σ)

namespace Link

variable (H) in
/-- The digest of a link. -/
def digest : Link σ → List σ
  | hashed payload => H payload
  | given digest => digest

/-- The payload that is hashed for a link. -/
def payload? : Link σ → Option (List σ)
  | hashed payload => some payload
  | given _ => none

/-- Both links are hashed, or both are given. -/
def Alike : Link σ → Link σ → Prop
  | hashed _, hashed _ => True
  | given _, given _ => True
  | _, _ => False

/-- Alike links with one digest are equal. -/
theorem eq_of_digest {a b : Link σ} (halike : a.Alike b) (ha : ∀ p ∈ a.payload?, p ∈ xs)
    (hb : ∀ p ∈ b.payload?, p ∈ xs) (h : a.digest H = b.digest H) : UpTo H init xs (a = b) := by
  cases a with
  | hashed p =>
    cases b with
    | hashed q => exact (hash_binding (ha p rfl) (hb q rfl) h).imp (congrArg hashed)
    | given e => exact halike.elim
  | given d =>
    cases b with
    | hashed q => exact halike.elim
    | given e => exact UpTo.intro (congrArg given h)

end Link

variable (H init) in
/-- A register extended with these links. -/
def chainOf (links : List (Link σ)) : List σ := replay H init (links.map (Link.digest H))

variable (H init) in
/-- Every input hashed for such a register: the payloads and the extends. -/
def linkInputs (links : List (Link σ)) : List (List σ) :=
  links.filterMap Link.payload? ++ replayInputs H init (links.map (Link.digest H))

/-- Hashed and given links stand in the same places, as far as both lists go. -/
def AlikeAll (links links' : List (Link σ)) : Prop := ∀ p ∈ links.zip links', p.1.Alike p.2

/-- Alike links with the same digests are equal. -/
theorem eq_of_digests {links links' : List (Link σ)} (halike : AlikeAll links links')
    (hsub : links.filterMap Link.payload? ⊆ xs) (hsub' : links'.filterMap Link.payload? ⊆ xs)
    (h : links.map (Link.digest H) = links'.map (Link.digest H)) :
    UpTo H init xs (links = links') := by
  have hmem : ∀ {l : List (Link σ)} {a : Link σ}, l.filterMap Link.payload? ⊆ xs → a ∈ l →
      ∀ p ∈ a.payload?, p ∈ xs :=
    fun hl ha p hp => hl (List.mem_filterMap.mpr ⟨_, ha, hp⟩)
  induction links generalizing links' with
  | nil =>
    rw [List.map_nil, eq_comm, List.map_eq_nil_iff] at h
    exact UpTo.intro h.symm
  | cons a links ih =>
    cases links' with
    | nil => cases h
    | cons b links' =>
      rw [List.map_cons, List.map_cons, List.cons.injEq] at h
      obtain ⟨hhead, htail⟩ := List.forall_mem_cons.mp halike
      have hrest : ∀ {c : Link σ} {l : List (Link σ)}, (c :: l).filterMap Link.payload? ⊆ xs →
          l.filterMap Link.payload? ⊆ xs := by
        intro c l hl p hp
        obtain ⟨q, hq, hpq⟩ := List.mem_filterMap.mp hp
        exact hl (List.mem_filterMap.mpr ⟨q, List.mem_cons_of_mem c hq, hpq⟩)
      have hab : UpTo H init xs (a = b) := Link.eq_of_digest hhead
        (hmem hsub List.mem_cons_self) (hmem hsub' List.mem_cons_self) h.1
      refine (hab.and (ih htail (hrest hsub) (hrest hsub') h.2)).imp ?_
      rintro ⟨rfl, rfl⟩
      rfl

/-- **Registers bind their links.** -/
theorem chainOf_binding {w : Nat} (hH : ∀ x, (H x).length = w) (hinit : init.length = w)
    {links links' : List (Link σ)} (halike : AlikeAll links links')
    (h : chainOf H init links = chainOf H init links') :
    UpTo H init (linkInputs H init links ++ linkInputs H init links') (links = links') := by
  have hextends : replayInputs H init (links.map (Link.digest H))
        ++ replayInputs H init (links'.map (Link.digest H))
      ⊆ linkInputs H init links ++ linkInputs H init links' := by
    intro x hx
    simp only [linkInputs, List.mem_append] at hx ⊢
    tauto
  -- the chain binds the digests, and each digest its link
  refine ((chain_binding hH hinit h).mono hextends).bind fun hdigests => ?_
  refine eq_of_digests halike ?_ ?_ hdigests
  · exact fun x hx => List.mem_append_left _ (List.mem_append_left _ hx)
  · exact fun x hx => List.mem_append_right _ (List.mem_append_left _ hx)

/-- A chain that ends where a register does holds the digests of its links. -/
theorem chain_eq_chainOf {w : Nat} (hH : ∀ x, (H x).length = w) (hinit : init.length = w)
    {ds : List (List σ)} {links : List (Link σ)} (h : replay H init ds = chainOf H init links) :
    UpTo H init (replayInputs H init ds ++ linkInputs H init links)
      (ds = links.map (Link.digest H)) := by
  refine (chain_binding hH hinit h).mono ?_
  intro x hx
  simp only [linkInputs, List.mem_append] at hx ⊢
  tauto

/-! ## Hashed payloads only -/

variable (H init) in
/-- A chain over the hashes of some payloads. -/
def commit (payloads : List (List σ)) : List σ := replay H init (payloads.map H)

variable (H init) in
/-- Every input hashed for a commitment: the payloads and the extends. -/
def commitInputs (payloads : List (List σ)) : List (List σ) :=
  payloads ++ replayInputs H init (payloads.map H)

/-- A chain of payloads is the register that commits to them. -/
theorem chainOf_map_hashed (payloads : List (List σ)) :
    chainOf H init (payloads.map .hashed) = commit H init payloads := by
  rw [chainOf, commit, List.map_map]
  rfl

/-- Both hash the same inputs. -/
theorem linkInputs_map_hashed (payloads : List (List σ)) :
    linkInputs H init (payloads.map .hashed) = commitInputs H init payloads := by
  have hpayloads : (payloads.map Link.hashed).filterMap Link.payload? = payloads := by
    rw [List.filterMap_map]
    exact List.filterMap_some
  rw [linkInputs, commitInputs, hpayloads, List.map_map]
  rfl

/-- Links that are all payloads are alike. -/
theorem alikeAll_map_hashed (payloads payloads' : List (List σ)) :
    AlikeAll (payloads.map Link.hashed) (payloads'.map Link.hashed) := by
  intro p hp
  rw [List.zip_map, List.mem_map] at hp
  obtain ⟨q, -, rfl⟩ := hp
  trivial

/-- **Commitments bind their payloads.** -/
theorem commit_binding {w : Nat} (hH : ∀ x, (H x).length = w) (hinit : init.length = w)
    {payloads payloads' : List (List σ)} (h : commit H init payloads = commit H init payloads') :
    UpTo H init (commitInputs H init payloads ++ commitInputs H init payloads')
      (payloads = payloads') := by
  rw [← linkInputs_map_hashed, ← linkInputs_map_hashed]
  rw [← chainOf_map_hashed, ← chainOf_map_hashed] at h
  refine (chainOf_binding hH hinit (alikeAll_map_hashed _ _) h).imp fun hlinks => ?_
  exact List.map_injective_iff.mpr (fun _ _ => Link.hashed.inj) hlinks

/-- A chain that ends where a commitment does holds the digests of its payloads. -/
theorem chain_eq_commit {w : Nat} (hH : ∀ x, (H x).length = w) (hinit : init.length = w)
    {ds payloads : List (List σ)} (h : replay H init ds = commit H init payloads) :
    UpTo H init (replayInputs H init ds ++ commitInputs H init payloads) (ds = payloads.map H) := by
  rw [← chainOf_map_hashed] at h
  rw [← linkInputs_map_hashed]
  refine (chain_eq_chainOf hH hinit h).imp fun hdigests => ?_
  rwa [List.map_map] at hdigests

end CvmMeasure.Hash
