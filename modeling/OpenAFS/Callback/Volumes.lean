import OpenAFS.Callback.Files

namespace OpenAFS.Callback

open Lib List Option
open Function (update update_of_ne)

def Package.outside (s : Package) (host : Nat → Host) (hostList : List Nat) (approxTime : Nat) : Package :=
  { s with host := host, hostList := hostList, approxTime := approxTime }

theorem Intact.outside {held : List Nat} {s : Package} {l : Lists} {host : Nat → Host} (intact : Intact held s l)
    (same : ∀ h, (host h).cblist = (s.host h).cblist) (hostList : List Nat) (approxTime : Nat) :
    Intact held (s.outside host hostList approxTime) l where
  loose := { intact.loose with
    shape := { intact.loose.shape with
      hosts := intact.loose.shape.hosts.congr (fun _ _ => rfl) (fun _ _ => rfl) (fun _ _ => rfl) (funext same) } }
  home := intact.home
  hosted := intact.hosted
  timed := intact.timed

theorem youngest_le {s : Package} {tthead thead : Nat} (old : tthead ≤ 128) (new : thead ≤ 128) :
    s.youngest tthead thead ≤ 128 := by
  rw [Package.youngest]
  split
  · exact new
  · exact old

namespace Emptying

variable {held : List Nat} {fe cb : Nat} {old s : Package} {l₀ l : Lists} {rest : List Nat}

theorem breakList {n : Nat} {b : Package.Broken} (here : Emptying held fe old s l₀ l cb rest)
    (enough : rest.length < n) (fine : b.tthead ≤ 128) :
    ∃ b' s' l', Package.breakList n cb b s = some (b', s') ∧ Emptying held fe old s' l₀ l' 0 [] ∧ b'.tthead ≤ 128 := by
  induction rest generalizing s l cb b n with
  | nil =>
    cases n with
    | zero => cases enough
    | succ n =>
      have ended : cb = 0 := here.linked
      subst ended
      exact ⟨b, s, l, by rw [Package.breakList, if_pos rfl], here, fine⟩
  | cons c more ih =>
    cases n with
    | zero => cases enough
    | succ n =>
      obtain ⟨first, nonzero, -⟩ := here.linked
      have first' : cb = c := first
      subst first'
      have inside := ((here.left cb).mp mem_cons_self).1
      have queue := here.loose.queues cb ((here.timed cb).mpr inside)
      obtain ⟨b', s', l', done, last, fine'⟩ := ih here.step (n := n)
        (b := ⟨s.youngest b.tthead (s.CB.thead cb), s.CB.hhead cb :: b.hosts⟩) (by simpa using enough)
        (youngest_le fine queue.2)
      refine ⟨b', s', l', ?_, last, fine'⟩
      rw [Package.breakList, if_neg nonzero]
      exact done

end Emptying

theorem Loose.filter_short {held : List Nat} {whole : Nat → Prop} {s : Package} {l : Lists}
    (loose : Loose held whole s l) (p : Nat → Bool) : (l.chained.filter p).length < s.nblks + 1 := by
  have shorter := length_filter_le p l.chained
  have bound := loose.chained_length
  omega

theorem Loose.bucket_short {held : List Nat} {whole : Nat → Prop} {s : Package} {l : Lists}
    (loose : Loose held whole s l) (p : Nat → Bool) : (l.entries.filter p).length < s.nblks + 1 := by
  have shorter := length_filter_le p l.entries
  have bound := loose.entries_length
  omega

variable {volume : Nat}

namespace Intact

variable {held : List Nat} {s : Package} {l : Lists}

theorem breakChain {n hash : Nat} {b : Package.Broken} {before rest : List Nat} (intact : Intact held s l)
    (known : hash < fehashSize) (split : (l.entries.filter fun e => s.hash e = hash) = before ++ rest)
    (enough : rest.length < n) (fine : b.tthead ≤ 128) :
    ∃ b' s', Package.breakChain volume n (slotAfter .next (.head hash) before) b s = some (b', s') ∧
      Kept held s l s' ∧ b'.tthead ≤ 128 := by
  have chain := intact.loose.shape.bucket known
  rw [split] at chain
  induction rest generalizing s l before b n with
  | nil =>
    cases n with
    | zero => cases enough
    | succ n =>
      rw [append_nil] at chain
      refine ⟨b, s, ?_, intact.kept, fine⟩
      rw [Package.breakChain, chain.load_end, if_pos rfl]
  | cons fe more ih =>
    cases n with
    | zero => cases enough
    | succ n =>
      have here := chain.load_slotAfter
      have member : fe ∈ before ++ fe :: more := by simp
      rw [← split] at member
      simp only [mem_filter, decide_eq_true_eq] at member
      obtain ⟨listed, home⟩ := member
      have nonzero : fe ≠ 0 := intact.loose.fe_ne_zero (mem_append_right _ (mem_append_right _ listed))
      rw [Package.breakChain, here, if_neg nonzero]
      by_cases this : s.FE.volid fe = volume
      · rw [if_pos this]
        obtain ⟨b₁, s₁, l₁, broke, last, fine₁⟩ := (intact.emptying listed).breakList (b := b)
          (intact.loose.filter_short _) fine
        obtain ⟨volid, vnode, unique, later, fnext, table⟩ := last.sameFE
        have hashes : s₁.hash = s.hash := by
          funext e
          rw [Package.hash, volid, unique]
          rfl
        have split₁ : (l₁.entries.filter fun e => s₁.hash e = s₁.hash fe) = before ++ fe :: more := by
          rw [hashes, home, last.entries]
          exact split
        have inside₁ : fe ∈ l₁.entries := by
          rw [last.entries]
          exact listed
        have freed := Loose.freeFE (l := { l₁ with entries := without l₁.entries fe })
          (last.loose.unhash inside₁ split₁) last.alone
        rw [hashes, home] at freed
        obtain ⟨kept, full⟩ := last.finish freed rfl
        have others : ∀ e ∈ without l₁.entries fe, ((s₁.setFe (slotAfter .next (.head hash) before)
            (s₁.FE.fnext fe)).freeFE fe).hash e = s.hash e := by
          intro e within
          have other := (mem_without.mp within).2
          rw [← hashes]
          simp [Package.hash, Package.freeFE, Package.setFe, update_of_ne other]
        have split' : ((l₁.cutFE fe).entries.filter fun e => ((s₁.setFe (slotAfter .next (.head hash) before)
            (s₁.FE.fnext fe)).freeFE fe).hash e = hash) = before ++ more := by
          have same : ((l₁.cutFE fe).entries.filter fun e => ((s₁.setFe (slotAfter .next (.head hash) before)
              (s₁.FE.fnext fe)).freeFE fe).hash e = hash) =
              (without l₁.entries fe).filter fun e => s.hash e = hash := by
            apply filter_congr
            intro e within
            rw [others e within]
          have once := intact.loose.entries_nodup.filter fun e => s.hash e = hash
          rw [same, filter_without, last.entries, split]
          rw [split] at once
          exact filter_ne_of_nodup once
        have chain' := kept.loose.shape.bucket known
        rw [split'] at chain'
        obtain ⟨b', s', done, kept', fine'⟩ := ih kept split' (n := n) (b := b₁) (by simpa using enough) fine₁ chain'
        refine ⟨b', s', ?_, kept'.trans last.apart full, fine'⟩
        simp only [broke, bind_eq_bind, bind_some]
        exact done
      · rw [if_neg this]
        have split' : (l.entries.filter fun e => s.hash e = hash) = (before ++ [fe]) ++ more := by
          rw [split, append_assoc]
          rfl
        obtain ⟨b', s', done, kept', fine'⟩ := ih intact split' (n := n) (by simpa using enough) fine
          (by rw [append_assoc]; exact chain)
        refine ⟨b', s', ?_, kept', fine'⟩
        rw [slotAfter_concat] at done
        exact done

theorem breakTable {hashes : List Nat} {b : Package.Broken} (intact : Intact held s l)
    (known : ∀ h ∈ hashes, h < fehashSize) (fine : b.tthead ≤ 128) :
    ∃ b' s', Package.breakTable volume hashes b s = some (b', s') ∧ Kept held s l s' ∧ b'.tthead ≤ 128 := by
  induction hashes generalizing s l b with
  | nil => exact ⟨b, s, rfl, intact.kept, fine⟩
  | cons hash rest ih =>
    obtain ⟨b₁, s₁, broke, ⟨l₁, intact₁, apart, full⟩, fine₁⟩ := intact.breakChain
      (known hash mem_cons_self) (nil_append _).symm (intact.loose.bucket_short _) fine
    obtain ⟨b', s', done, kept, fine'⟩ := ih intact₁ (fun h within => known h (mem_cons_of_mem _ within)) fine₁
    refine ⟨b', s', ?_, kept.trans apart full, fine'⟩
    have broke' : Package.breakChain volume (s.nblks + 1) (.head hash) b s = some (b₁, s₁) := broke
    simp only [Package.breakTable, broke', bind_eq_bind, bind_some]
    exact done

end Intact

def Package.marked (s : Package) (status : Nat → Status) (host : Nat → Host) (later : Nat → Bool) : Package :=
  { s with CB.status := status, host := host, FE.later := later }

theorem delayList_eq {s : Package} {cb n : Nat} {rest : List Nat} (linked : Linked id s.CB.cnext cb rest)
    (enough : rest.length < n) : ∃ status host, Package.delayList n cb s = some (s.marked status host s.FE.later) ∧
      (∀ c ∈ rest, status c = .delayed) ∧ (∀ c, status c = s.CB.status c ∨ status c = .delayed) ∧
      ∀ h, (host h).cblist = (s.host h).cblist := by
  induction rest generalizing s cb n with
  | nil =>
    cases n with
    | zero => cases enough
    | succ n =>
      have ended : cb = 0 := linked
      refine ⟨s.CB.status, s.host, ?_, nofun, fun _ => .inl rfl, fun _ => rfl⟩
      rw [Package.delayList, if_pos ended]
      rfl
  | cons c more ih =>
    cases n with
    | zero => cases enough
    | succ n =>
      obtain ⟨first, nonzero, later⟩ := linked
      have first' : cb = c := first
      subst first'
      obtain ⟨status, host, done, all, some', lists⟩ := ih
        (s := (s.setHost (s.CB.hhead cb) { s.host (s.CB.hhead cb) with hfeLater := true }).setStatus cb .delayed)
        (n := n) later (by simpa using enough)
      have this : status cb = .delayed := by
        rcases some' cb with same | delayed
        · exact same.trans (Function.update_self ..)
        · exact delayed
      refine ⟨status, host, ?_, ?_, ?_, ?_⟩
      · rw [Package.delayList, if_neg nonzero]
        exact done
      · intro d within
        rcases List.mem_cons.mp within with rfl | member
        · exact this
        · exact all d member
      · intro d
        by_cases same : d = cb
        · exact .inr (same ▸ this)
        · apply (some' d).imp_left
          intro old
          exact old.trans (update_of_ne same ..)
      · intro h
        refine (lists h).trans ?_
        change (update s.host _ _ h).cblist = _
        rw [Function.update_apply]
        split
        · rename_i same
          rw [same]
        · rfl

namespace Intact

variable {held : List Nat} {s : Package} {l : Lists}

theorem marked {fe : Nat} {status : Nat → Status} {host : Nat → Host} (intact : Intact held s l)
    (all : ∀ c ∈ l.chained.filter (fun c => s.CB.fhead c = fe), status c = .delayed)
    (some' : ∀ c, status c = s.CB.status c ∨ status c = .delayed)
    (lists : ∀ h, (host h).cblist = (s.host h).cblist) :
    Intact held (s.marked status host (update s.FE.later fe true)) l where
  loose := { intact.loose with
    shape := { intact.loose.shape with
      hosts := intact.loose.shape.hosts.congr (fun _ _ => rfl) (fun _ _ => rfl) (fun _ _ => rfl) (funext lists) }
    distinct := by
      intro e within e' within' here here' same
      have plain : ∀ d, update s.FE.later fe true d = false → s.FE.later d = false := by
        intro d unset
        by_cases this : d = fe
        · rw [this, Function.update_self] at unset
          cases unset
        · rwa [update_of_ne this] at unset
      exact intact.loose.distinct e within e' within' (plain e here) (plain e' here') same
    delayed := by
      intro c within later
      by_cases this : s.CB.fhead c = fe
      · exact all c (by simpa using ⟨within, this⟩)
      have old : s.FE.later (s.CB.fhead c) = true := by
        rw [← later]
        exact (update_of_ne this ..).symm
      rcases some' c with same | delayed
      · exact same.trans (intact.loose.delayed c within old)
      · exact delayed }
  home := intact.home
  hosted := intact.hosted
  timed := intact.timed

theorem markChain {n fe : Nat} {rest : List Nat} (intact : Intact held s l)
    (linked : Linked id s.FE.fnext fe rest) (listed : ∀ e ∈ rest, e ∈ l.entries) (enough : rest.length < n) :
    ∃ s', Package.markChain volume n fe s = some s' ∧ Kept held s l s' := by
  induction rest generalizing s fe n with
  | nil =>
    cases n with
    | zero => cases enough
    | succ n =>
      have ended : fe = 0 := linked
      exact ⟨s, by rw [Package.markChain, if_pos ended], intact.kept⟩
  | cons e more ih =>
    cases n with
    | zero => cases enough
    | succ n =>
      obtain ⟨first, nonzero, later⟩ := linked
      have first' : fe = e := first
      subst first'
      have inside := listed fe mem_cons_self
      have listed' : ∀ e ∈ more, e ∈ l.entries := fun e within => listed e (mem_cons_of_mem _ within)
      rw [Package.markChain, if_neg nonzero]
      by_cases this : s.FE.volid fe = volume
      · obtain ⟨status, host, done, all, some', lists⟩ := delayList_eq (Rest.of_first intact inside).linked
          (intact.loose.filter_short _)
        have intact' := intact.marked all some' lists
        obtain ⟨s', done', kept⟩ := ih (s := s.marked status host (update s.FE.later fe true)) intact' later listed'
          (n := n) (by simpa using enough)
        refine ⟨s', ?_, kept.trans rfl id⟩
        simp only [this, if_true, done, bind_eq_bind, bind_some]
        exact done'
      · obtain ⟨s', done', kept⟩ := ih intact later listed' (n := n) (by simpa using enough)
        refine ⟨s', ?_, kept⟩
        simp only [this, if_false, bind_eq_bind, bind_some]
        exact done'

theorem markTable {hashes : List Nat} (intact : Intact held s l) (known : ∀ h ∈ hashes, h < fehashSize) :
    ∃ s', Package.markTable volume hashes s = some s' ∧ Kept held s l s' := by
  induction hashes generalizing s l with
  | nil => exact ⟨s, rfl, intact.kept⟩
  | cons hash rest ih =>
    have chain := (intact.loose.shape.bucket (known hash mem_cons_self)).values
    obtain ⟨s₁, marked, l₁, intact₁, apart, full⟩ := intact.markChain chain
      (fun e within => (List.mem_filter.mp within).1) (intact.loose.bucket_short _)
    obtain ⟨s', done, kept⟩ := ih intact₁ fun h within => known h (mem_cons_of_mem _ within)
    refine ⟨s', ?_, kept.trans apart full⟩
    have marked' : Package.markChain volume (s.nblks + 1) (s.hashTable hash) s = some s₁ := marked
    simp only [Package.markTable, marked', bind_eq_bind, bind_some]
    exact done

theorem breakVolumeCallBacksLater (intact : Intact held s l) (volume : Nat) :
    ∃ s', s.breakVolumeCallBacksLater volume = some s' ∧ Kept held s l s' :=
  intact.markTable fun _ within => List.mem_range.mp within

end Intact

end OpenAFS.Callback
