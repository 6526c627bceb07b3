import OpenAFS.Callback.Volumes

namespace OpenAFS.Callback

open Lib List Option
open Function (update update_of_ne)

structure Unchained (held : List Nat) (s : Package) (l : Lists) (myfe : Nat) : Prop where
  loose : Loose held (fun e => e ∈ l.entries ∨ e ∈ l.apart) s l
  hosted : ∀ cb, cb ∈ l.hosted ↔ cb ∈ l.chained
  timed : ∀ cb, cb ∈ l.timed ↔ cb ∈ l.chained
  linked : Linked id s.FE.vnode myfe l.apart
  later : ∀ e ∈ l.apart, s.FE.later e = true

theorem Intact.unchained {held : List Nat} {s : Package} {l : Lists} (intact : Intact held s l) (none : l.apart = []) :
    Unchained held s l 0 where
  loose := intact.loose.weaken fun e place => place.resolve_right (by rw [none]; exact not_mem_nil)
  hosted := intact.hosted
  timed := intact.timed
  linked := by
    rw [none]
    exact rfl
  later := by simp [none]

theorem Unchained.intact {held : List Nat} {s : Package} {l : Lists} {myfe : Nat} (here : Unchained held s l myfe)
    (none : l.apart = []) : Intact held s l where
  loose := here.loose.weaken fun _ => .inl
  home := by
    intro cb within
    refine (here.loose.homes cb within).resolve_right ?_
    rw [none]
    exact not_mem_nil
  hosted := here.hosted
  timed := here.timed

theorem Loose.overlay {held : List Nat} {whole : Nat → Prop} {s : Package} {l : Lists} {fe : Nat}
    (loose : Loose held whole s l) (inside : fe ∈ l.apart) (vnode unique : Nat) :
    Loose held whole { s with FE.vnode := update s.FE.vnode fe vnode, FE.unique := update s.FE.unique fe unique } l := by
  have others : ∀ c ∈ l.entries, c ≠ fe := by
    rintro c within rfl
    exact loose.apart_notMem_entries inside within
  refine { loose with
    shape := { loose.shape with
      freeFE := loose.shape.freeFE.congr_values fun c free => ?_
      table := loose.shape.table.congr (fun _ _ => rfl) (fun _ _ => rfl) fun c within => ?_ }
    distinct := ?_ }
  · refine update_of_ne ?_ ..
    rintro rfl
    exact loose.entry_notMem_free (mem_append_left _ inside) free
  · simp [Package.hash, update_of_ne (others c within)]
  · intro c within c' within' here here' same
    simp only [Package.fid, update_of_ne (others c within), update_of_ne (others c' within')] at same
    exact loose.distinct c within c' within' here here' same

variable {rest : List Nat}

namespace Unchained

variable {held : List Nat} {s : Package} {l : Lists} {myfe : Nat}

variable (here : Unchained held s l myfe)
include here

theorem unchain {n hash volume : Nat} {before : List Nat}
    (known : hash < fehashSize) (split : (l.entries.filter fun e => s.hash e = hash) = before ++ rest)
    (enough : rest.length < n) :
    ∃ v m s' l', Package.unchain n (slotAfter .next (.head hash) before) volume myfe s = some ((v, m), s') ∧
      Unchained held s' l' m ∧ (Full s l → Full s' l') := by
  induction rest generalizing s l myfe volume before n with
  | nil =>
    cases n with
    | zero => cases enough
    | succ n =>
      have chain := here.loose.shape.bucket known
      rw [split, append_nil] at chain
      refine ⟨volume, myfe, s, l, ?_, here, id⟩
      rw [Package.unchain, chain.load_end, if_pos rfl]
  | cons fe more ih =>
    cases n with
    | zero => cases enough
    | succ n =>
      have chain := here.loose.shape.bucket known
      rw [split] at chain
      have this := chain.load_slotAfter
      have member : fe ∈ before ++ fe :: more := by simp
      rw [← split] at member
      simp only [mem_filter, decide_eq_true_eq] at member
      obtain ⟨listed, home⟩ := member
      have nonzero : fe ≠ 0 := here.loose.fe_ne_zero (mem_append_right _ (mem_append_right _ listed))
      have fresh : fe ∉ l.apart := fun apart => here.loose.apart_notMem_entries apart listed
      rw [Package.unchain, this, if_neg nonzero]
      split
      · rename_i marked
        have moved := here.loose.unhash listed (by rw [home]; exact split)
        have placed := Loose.overlay (l := { l with entries := without l.entries fe, apart := fe :: l.apart })
          moved mem_cons_self myfe 0
        rw [home] at placed
        have others : ∀ e ∈ without l.entries fe, feHash (s.FE.volid e) (update s.FE.unique fe 0 e) = s.hash e := by
          intro e within
          rw [update_of_ne (mem_without.mp within).2]
          rfl
        have split' : ((without l.entries fe).filter fun e =>
            feHash (s.FE.volid e) (update s.FE.unique fe 0 e) = hash) = before ++ more := by
          have same : ((without l.entries fe).filter fun e =>
              feHash (s.FE.volid e) (update s.FE.unique fe 0 e) = hash) =
              (without l.entries fe).filter fun e => s.hash e = hash := by
            apply filter_congr
            intro e within
            rw [others e within]
          have once := here.loose.entries_nodup.filter fun e => s.hash e = hash
          rw [same, filter_without, split]
          rw [split] at once
          exact filter_ne_of_nodup once
        have next : Unchained held
            { s.setFe (slotAfter .next (.head hash) before) (s.FE.fnext fe) with
              FE.vnode := update s.FE.vnode fe myfe, FE.unique := update s.FE.unique fe 0 }
            { l with entries := without l.entries fe, apart := fe :: l.apart } fe := {
          loose := placed.weaken fun e place => by
            rcases place with still | apart
            · exact .inl (mem_without.mp still).1
            · rcases List.mem_cons.mp apart with rfl | old
              · exact .inl listed
              · exact .inr old
          hosted := here.hosted
          timed := here.timed
          linked := free_push here.linked nonzero fresh
          later := by
            intro e apart
            rcases List.mem_cons.mp apart with rfl | old
            · exact marked.1
            · exact here.later e old }
        obtain ⟨v, m, s', l', done, last, full⟩ := ih next split' (n := n)
          (by simpa using enough)
        refine ⟨v, m, s', l', done, last, fun before => full ?_⟩
        intro e within
        exact before e (mem_without.mp within).1
      · have split' : (l.entries.filter fun e => s.hash e = hash) = (before ++ [fe]) ++ more := by
          rw [split, append_assoc]
          rfl
        obtain ⟨v, m, s', l', done, last, full⟩ := ih here split' (n := n) (by simpa using enough)
        refine ⟨v, m, s', l', ?_, last, full⟩
        rw [slotAfter_concat] at done
        exact done

theorem unchainTable {hashes : List Nat} (volume : Nat) (known : ∀ h ∈ hashes, h < fehashSize) :
    ∃ v m s' l', Package.unchainTable hashes volume myfe s = some ((v, m), s') ∧ Unchained held s' l' m ∧
      (Full s l → Full s' l') := by
  induction hashes generalizing s l myfe volume with
  | nil => exact ⟨volume, myfe, s, l, rfl, here, id⟩
  | cons hash rest ih =>
    obtain ⟨v₁, m₁, s₁, l₁, chained, here₁, full₁⟩ := here.unchain
      (known hash mem_cons_self) (nil_append _).symm (here.loose.bucket_short _)
    obtain ⟨v, m, s', l', done, last, full⟩ := ih here₁ v₁ fun h within =>
      known h (mem_cons_of_mem _ within)
    refine ⟨v, m, s', l', ?_, last, fun before => full (full₁ before)⟩
    have chained' : Package.unchain (s.nblks + 1) (.head hash) volume myfe s = some ((v₁, m₁), s₁) := chained
    simp only [Package.unchainTable, chained', bind_eq_bind, bind_some]
    exact done

theorem laterList {n fe cb : Nat} {b : Package.Broken}
    (inside : fe ∈ l.apart) (linked : Linked id s.CB.cnext cb rest)
    (left : (l.chained.filter fun c => s.CB.fhead c = fe) = rest) (enough : rest.length < n) (fine : b.tthead ≤ 128) :
    ∃ b' s' l', Package.laterList n cb b s = some (b', s') ∧ Unchained held s' l' myfe ∧ l'.apart = l.apart ∧
      (∀ c ∈ l'.chained, s'.CB.fhead c ≠ fe) ∧ s'.FE.vnode = s.FE.vnode ∧ (Full s l → Full s' l') ∧
      b'.tthead ≤ 128 := by
  induction rest generalizing s l cb b n with
  | nil =>
    cases n with
    | zero => cases enough
    | succ n =>
      have ended : cb = 0 := linked
      refine ⟨b, s, l, by rw [Package.laterList, if_pos ended], here, rfl, ?_, rfl, id, fine⟩
      intro c within
      simpa using List.filter_eq_nil_iff.mp left c within
  | cons c more ih =>
    cases n with
    | zero => cases enough
    | succ n =>
      obtain ⟨first, nonzero, behind⟩ := linked
      have first' : cb = c := first
      subst first'
      have member : cb ∈ l.chained.filter fun c => s.CB.fhead c = fe := left ▸ mem_cons_self
      simp only [mem_filter, decide_eq_true_eq] at member
      obtain ⟨listed, home⟩ := member
      have delayed : s.CB.status cb = .delayed := by
        apply here.loose.delayed cb listed
        rw [home]
        exact here.later fe inside
      have queue := here.loose.queues cb ((here.timed cb).mpr listed)
      have detached := (here.loose.tDel ((here.timed cb).mpr listed)).hDel ((here.hosted cb).mpr listed)
      obtain ⟨c, done, labels, later, volid, vnode, freed⟩ := detached.cDel_keep listed
        (.inr (by rw [← home] at inside; exact inside))
      have relabel : ∀ d ∈ without l.chained cb, c.fhead d = s.CB.fhead d := by
        intro d within
        rw [labels, update_of_ne (mem_without.mp within).2]
        rfl
      have left' : ((without l.chained cb).filter fun d => c.fhead d = fe) = more := by
        have same : ((without l.chained cb).filter fun d => c.fhead d = fe) =
            (without l.chained cb).filter fun d => s.CB.fhead d = fe := by
          apply filter_congr
          intro d within
          rw [relabel d within]
        rw [same, ← home]
        rw [← home] at left
        rw [← nil_append (_ :: _)] at left
        exact left_of_split here.loose.chained_nodup left
      have next : Unchained held (((s.tDel cb).hDel cb).withChains c)
          (Lists.cut { l with hosted := without l.hosted cb, timed := without l.timed cb } cb) myfe := {
        loose := freed
        hosted := fun d => by simp only [Lists.cut, mem_without, here.hosted]
        timed := fun d => by simp only [Lists.cut, mem_without, here.timed]
        linked := by
          change Linked id c.FE.vnode myfe l.apart
          rw [vnode]
          exact here.linked
        later := by
          change ∀ e ∈ l.apart, c.FE.later e = true
          rw [later]
          exact here.later }
      have linked' : Linked id c.cnext (s.CB.cnext cb) more := by
        have chain := (freed.shape.chain (.inr inside)).values
        change Linked id c.cnext (c.FE.firstcb fe) ((without l.chained cb).filter fun d => c.fhead d = fe) at chain
        rw [left'] at chain
        cases more with
        | nil => exact behind
        | cons d more =>
          have next : s.CB.cnext cb = d := behind.1
          have head : c.FE.firstcb fe = d := chain.1
          rw [next]
          rwa [head] at chain
      obtain ⟨b', s', l', done', last, apart, gone, words, full, fine'⟩ := ih next
        (b := ⟨s.youngest b.tthead (s.CB.thead cb), s.CB.hhead cb :: b.hosts⟩) inside linked' left' (n := n)
        (by simpa using enough) (youngest_le fine queue.2)
      refine ⟨b', s', l', ?_, last, apart, gone, words.trans vnode, ?_, fine'⟩
      · rw [Package.laterList, if_neg nonzero, if_pos delayed]
        simp only [done, bind_eq_bind, bind_some]
        exact done'
      intro before
      apply full
      intro e within
      obtain ⟨d, member, place⟩ := before e within
      have other : d ≠ cb := by
        rintro rfl
        rw [home] at place
        exact here.loose.apart_notMem_entries inside (place ▸ within)
      exact ⟨d, mem_without.mpr ⟨member, other⟩, (relabel d (mem_without.mpr ⟨member, other⟩)).trans place⟩

theorem laterEntries {n : Nat} {b : Package.Broken} (enough : l.apart.length < n)
    (fine : b.tthead ≤ 128) : ∃ b' s' l', Package.laterEntries n myfe b s = some (b', s') ∧
      Intact held s' l' ∧ l'.apart = [] ∧ (Full s l → Full s' l') ∧ b'.tthead ≤ 128 := by
  induction n generalizing s l myfe b with
  | zero => cases enough
  | succ n ih =>
    cases places : l.apart with
    | nil =>
      have linked := here.linked
      rw [places] at linked
      have ended : myfe = 0 := linked
      exact ⟨b, s, l, by rw [Package.laterEntries, if_pos ended], here.intact places, places, id, fine⟩
    | cons fe more =>
      have linked := here.linked
      rw [places] at linked
      obtain ⟨first, nonzero, -⟩ := linked
      have first' : myfe = fe := first
      subst first'
      have inside : myfe ∈ l.apart := places ▸ mem_cons_self
      have chain := (here.loose.shape.chain (.inr inside)).values
      obtain ⟨b₁, s₁, l₁, done, here₁, apart₁, gone, words, full₁, fine₁⟩ := here.laterList inside chain rfl
        (here.loose.filter_short _) fine
      have listed : Package.laterList (s.nblks + 1) (s.FE.firstcb myfe) b s = some (b₁, s₁) := done
      have apart : l₁.apart = myfe :: more := apart₁.trans places
      have loose₁ : Loose held (fun e => e ∈ l₁.entries ∨ e ∈ l₁.apart) s₁ { l₁ with apart := myfe :: more } := by
        rw [← apart]
        exact here₁.loose
      have linked₁ := here₁.linked
      rw [apart] at linked₁
      have fresh := (List.nodup_cons.mp linked₁.nodup).1
      have freed := loose₁.freeFE gone
      have next : Unchained held (s₁.freeFE myfe) { l₁ with freeFE := myfe :: l₁.freeFE, apart := more }
          (s₁.FE.vnode myfe) := {
        loose := freed.weaken fun e place => by
          rw [apart]
          rcases place with hashed | later
          · refine ⟨.inl hashed, ?_⟩
            rintro rfl
            exact here₁.loose.apart_notMem_entries (by rw [apart]; exact mem_cons_self) hashed
          · refine ⟨.inr (mem_cons_of_mem _ later), ?_⟩
            rintro rfl
            exact fresh later
        hosted := here₁.hosted
        timed := here₁.timed
        linked := by
          apply linked₁.2.2.congr_values
          intro c within
          refine update_of_ne ?_ ..
          rintro rfl
          exact fresh within
        later := by
          intro e within
          apply here₁.later e
          rw [apart]
          exact mem_cons_of_mem _ within }
      rw [places, length_cons] at enough
      obtain ⟨b', s', l', done', intact, none, full, fine'⟩ := ih next (by simpa using enough) fine₁
      refine ⟨b', s', l', ?_, intact, none, fun before => full (full₁ before), fine'⟩
      rw [Package.laterEntries, if_neg nonzero]
      simp only [listed, bind_eq_bind, bind_some]
      exact done'

end Unchained

theorem Intact.unchainLater {held : List Nat} {s : Package} {l : Lists} (intact : Intact held s l)
    (none : l.apart = []) : ∃ v b s', s.unchainLater = some ((v, b), s') ∧ Kept held s l s' ∧ b.tthead ≤ 128 := by
  obtain ⟨v, m, s₁, l₁, chained, here, full₁⟩ := (intact.unchained none).unchainTable 0
    fun _ within => List.mem_range.mp within
  have short : l₁.apart.length < s₁.nblks + 1 := by
    have total := here.loose.files.length_eq
    simp only [length_append, length_range'] at total
    omega
  obtain ⟨b, s', l', done, kept, none', full, fine⟩ := here.laterEntries (b := ⟨0, []⟩) short (by decide)
  refine ⟨v, b, s', ?_, ⟨l', kept, none'.trans none.symm, fun before => full (full₁ before)⟩, fine⟩
  simp only [Package.unchainLater, chained, done, bind_eq_bind, bind_some]

def Package.takeDelayed (s : Package) (cbi : Nat) (fids : List AFSFid) : Option (List AFSFid × Package) :=
  if s.CB.status cbi = .delayed then do
    let fid := s.fid (s.CB.fhead cbi)
    let s ← ((s.hDel cbi).tDel cbi).cDel cbi true
    some (fids ++ [fid], s)
  else some (fids, s)

theorem Package.collectDelayed_succ (host n cbi : Nat) (fids : List AFSFid) (s : Package) :
    collectDelayed host (n + 1) cbi fids s = (s.takeDelayed cbi fids).bind fun r =>
      if s.CB.hnext cbi ≠ 0 ∧ s.CB.hnext cbi ≠ (s.host host).cblist ∧ r.1.length < afsCbMax then
        collectDelayed host n (s.CB.hnext cbi) r.1 r.2
      else some (r.1, r.2) := by
  by_cases delayed : s.CB.status cbi = .delayed
  · simp only [collectDelayed, takeDelayed, if_pos delayed, bind_eq_bind, bind_assoc, bind_some]
  · simp only [collectDelayed, takeDelayed, if_neg delayed, bind_eq_bind, bind_some]

theorem Intact.takeDelayed {held : List Nat} {s : Package} {l : Lists} {host cbi : Nat} {earlier : List Nat}
    (intact : Intact held s l) (split : (l.hosted.filter fun c => s.CB.hhead c = host) = earlier ++ cbi :: rest)
    (fids : List AFSFid) : ∃ fids' s' l' earlier', s.takeDelayed cbi fids = some (fids', s') ∧ Intact held s' l' ∧
      l'.apart = l.apart ∧ (Full s l → Full s' l') ∧
      (l'.hosted.filter fun c => s'.CB.hhead c = host) = earlier' ++ rest := by
  have member : cbi ∈ earlier ++ cbi :: rest := by simp
  rw [← split] at member
  have inside := (intact.hosted cbi).mp (List.mem_filter.mp member).1
  rw [Package.takeDelayed]
  split
  · obtain ⟨c, done, labels, later, volid, next⟩ := intact.unlink inside
    refine ⟨fids ++ [s.fid (s.CB.fhead cbi)], _, _, earlier, ?_, next, Lists.drop_apart .., fun full => full.unlink labels, ?_⟩
    · have done' : ((s.hDel cbi).tDel cbi).cDel cbi true = some (((s.tDel cbi).hDel cbi).withChains c) := done
      simp only [done', bind_eq_bind, bind_some]
    have once := (intact.loose.shape.hosts host).nodup
    rw [split] at once
    rw [Lists.unlink, Lists.drop_hosted]
    refine Eq.trans (filter_without l.hosted cbi fun c => s.CB.hhead c = host) ?_
    rw [split]
    exact filter_ne_of_nodup once
  · refine ⟨fids, s, l, earlier ++ [cbi], rfl, intact, rfl, id, ?_⟩
    rw [split, append_assoc]
    rfl

theorem Intact.collectDelayed {held : List Nat} {s : Package} {l : Lists} {host n cbi : Nat} {fids : List AFSFid}
    {earlier : List Nat} (intact : Intact held s l)
    (split : (l.hosted.filter fun c => s.CB.hhead c = host) = earlier ++ cbi :: rest) (enough : rest.length < n) :
    ∃ fids' s', Package.collectDelayed host n cbi fids s = some (fids', s') ∧ Kept held s l s' := by
  induction rest generalizing s l cbi fids earlier n with
  | nil =>
    cases n with
    | zero => cases enough
    | succ n =>
      have ring := intact.loose.shape.hosts host
      rw [split] at ring
      have back : s.CB.hnext cbi = (s.host host).cblist := ring.next_last
      obtain ⟨fids', s', l', earlier', done, intact', apart, full, -⟩ := intact.takeDelayed split fids
      refine ⟨fids', s', ?_, l', intact', apart, full⟩
      rw [Package.collectDelayed_succ, done, bind_some, if_neg]
      exact fun more => more.2.1 back
  | cons c more ih =>
    cases n with
    | zero => cases enough
    | succ n =>
      have ring := intact.loose.shape.hosts host
      rw [split] at ring
      have next : s.CB.hnext cbi = c := ring.next_eq
      obtain ⟨fids', s', l', earlier', done, intact', apart, full, split'⟩ := intact.takeDelayed split fids
      rw [Package.collectDelayed_succ, done, bind_some, next]
      split
      · obtain ⟨fids'', s'', done', kept⟩ := ih intact' split' (n := n) (by simpa using enough)
        exact ⟨fids'', s'', done', kept.trans apart full⟩
      · exact ⟨fids', s', rfl, l', intact', apart, full⟩

end OpenAFS.Callback
