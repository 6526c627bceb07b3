import OpenAFS.Ptserver.Dying

namespace OpenAFS.Ptserver

open Function (update update_self update_of_ne)
open Lib PrDb

namespace OnlyLinks

variable {db db' : PrDb}

theorem id (only : OnlyLinks db db') (b : Nat) : (db'.entry b).id = (db.entry b).id :=
  congrArg (fun d => d.id) (only.data b)

theorem name (only : OnlyLinks db db') (b : Nat) : (db'.entry b).name = (db.entry b).name :=
  congrArg (fun d => d.name) (only.data b)

theorem ids (only : OnlyLinks db db') (conts : Nat → List Nat) (b : Nat) : db'.ids conts b = db.ids conts b := by
  unfold PrDb.ids
  rw [slots_congr (congrArg (fun d => d.entries) (only.data b)) rfl fun c _ => by rw [only.cont]]

end OnlyLinks

namespace Sound

variable {labels : Prop} {db db' : PrDb} {v : View}

theorem onlyLinks (sound : Sound labels db v) (only : OnlyLinks db db') {on' : Thread → List Nat} (threaded : Threaded db' on')
    (live : ∀ k, ∀ b ∈ on' k, b ≠ v.dying → v.role b = .entry)
    (ids : ∀ b ∈ on' .id, ∀ c ∈ on' .id, (db.entry b).id = (db.entry c).id → b = c)
    (names : ∀ b ∈ on' .name, ∀ c ∈ on' .name, (db.entry b).name = (db.entry c).name → b = c)
    (plain : ∀ b ∈ on' .id, (db.entry b).id ≠ badId ∧ (db.entry b).id ≠ 0)
    (short : ∀ b ∈ on' .name, (db.entry b).name.length < maxNameLen) : Sound labels db' { v with on := on' } := by
  refine ⟨sound.roles.onlyLinks only, threaded, live, sound.dying, ?_, ?_, ?_, ?_, ?_⟩
  · intro b inside c inside'
    rw [only.id, only.id]
    exact ids b inside c inside'
  · intro b inside c inside'
    rw [only.name, only.name]
    exact names b inside c inside'
  · intro b inside
    rw [only.id]
    exact plain b inside
  · intro b inside
    rw [only.name]
    exact short b inside
  · intro b here
    exact ((sound.lists b here).congr (congrArg (fun d => d.entries) (only.data b))
      (congrArg (fun d => d.count) (only.data b)) (only.id b) rfl fun c _ => by rw [only.cont]; exact ⟨rfl, rfl⟩).1

theorem fewer (sound : Sound labels db v) (only : OnlyLinks db db') {on' : Thread → List Nat} (threaded : Threaded db' on')
    (subset : ∀ k, on' k ⊆ v.on k) : Sound labels db' { v with on := on' } := by
  apply sound.onlyLinks only threaded
  · exact fun k b inside => sound.live k b (subset k inside)
  · exact fun b inside c inside' => sound.ids b (subset _ inside) c (subset _ inside')
  · exact fun b inside c inside' => sound.names b (subset _ inside) c (subset _ inside')
  · exact fun b inside => sound.plain b (subset _ inside)
  · exact fun b inside => sound.short b (subset _ inside)

end Sound

def View.off (v : View) (k : Thread) (loc : Nat) : View :=
  { v with on := update v.on k ((v.on k).filter fun b => b ≠ loc) }

variable {loc : Nat}

theorem View.mem_off {v : View} {k k' : Thread} {b : Nat} : b ∈ (v.off k loc).on k' ↔ b ∈ v.on k' ∧ (k' = k → b ≠ loc) := by
  unfold View.off
  dsimp only
  by_cases here : k' = k
  · subst here
    rw [update_self, List.mem_filter, decide_eq_true_eq, imp_iff_right rfl]
  · simp [here]

def View.onto (v : View) (k : Thread) (loc : Nat) : View :=
  { v with on := update v.on k (loc :: v.on k) }

theorem View.mem_onto {v : View} {k k' : Thread} {b : Nat} : b ∈ (v.onto k loc).on k' ↔ k' = k ∧ b = loc ∨ b ∈ v.on k' := by
  unfold View.onto
  by_cases here : k' = k
  · subst here
    simp
  · simp [here]

namespace Sound

variable {labels : Prop} {db db' : PrDb} {v : View}

variable (sound : Sound labels db v)
include sound

theorem removeFromIDHash (inside : loc ∈ v.on .id) :
    ∃ db', db.removeFromIDHash (db.entry loc).id = .ok (db', loc) ∧ OnlyLinks db db' ∧ Sound labels db' (v.off .id loc) := by
  obtain ⟨db', done, only, threaded⟩ := @Threaded.removeFromHash .id db v.on sound.threaded loc
    (fun e => e.id = (db.entry loc).id) inside (by
      intro c member
      rw [decide_eq_true_eq]
      constructor
      · exact sound.ids c member loc inside
      · rintro rfl
        rfl)
  refine ⟨db', ?_, only, sound.fewer only threaded fun k b member => (View.mem_off.mp member).1⟩
  unfold PrDb.removeFromIDHash
  rw [ensure, if_pos (sound.plain loc inside)]
  exact done

theorem removeFromNameHash (inside : loc ∈ v.on .name) :
    ∃ db', db.removeFromNameHash (db.entry loc).name = .ok (db', loc) ∧ OnlyLinks db db' ∧
      Sound labels db' (v.off .name loc) := by
  obtain ⟨db', done, only, threaded⟩ := @Threaded.removeFromHash .name db v.on sound.threaded loc
    (fun e => e.name = (db.entry loc).name) inside (by
      intro c member
      rw [decide_eq_true_eq]
      constructor
      · exact sound.names c member loc inside
      · rintro rfl
        rfl)
  exact ⟨db', done, only, sound.fewer only threaded fun k b member => (View.mem_off.mp member).1⟩

theorem addToIDHash (here : v.role loc = .entry) (fresh : loc ∉ v.on .id)
    (unique : ∀ c ∈ v.on .id, (db.entry c).id ≠ (db.entry loc).id)
    (done : db.addToIDHash (db.entry loc).id loc = .ok db') : OnlyLinks db db' ∧ Sound labels db' (v.onto .id loc) := by
  obtain ⟨plain, done⟩ := ensure_then.mp done
  cases done
  obtain ⟨threaded, only⟩ := sound.threaded.addToHash (sound.roles.entries loc here).1
    (sound.roles.lt_eof (by simp [here])) (sound.roles.ne_zero (by simp [here])) fresh
  have mem {k : Thread} {b : Nat} : b ∈ update v.on .id (loc :: v.on .id) k ↔ k = .id ∧ b = loc ∨ b ∈ v.on k :=
    View.mem_onto
  refine ⟨only, sound.onlyLinks only threaded ?_ ?_ ?_ ?_ ?_⟩
  · intro k b member
    rcases mem.mp member with ⟨-, rfl⟩ | old
    · exact fun _ => here
    · exact sound.live k b old
  · intro b member c member' same
    rcases mem.mp member with ⟨-, rfl⟩ | old
    · rcases mem.mp member' with ⟨-, rfl⟩ | old'
      · rfl
      · exact absurd same.symm (unique c old')
    · rcases mem.mp member' with ⟨-, rfl⟩ | old'
      · exact absurd same (unique b old)
      · exact sound.ids b old c old' same
  · intro b member c member'
    have old := (mem.mp member).resolve_left (by simp)
    have old' := (mem.mp member').resolve_left (by simp)
    exact sound.names b old c old'
  · intro b member
    rcases mem.mp member with ⟨-, rfl⟩ | old
    · exact plain
    · exact sound.plain b old
  · exact fun b member => sound.short b ((mem.mp member).resolve_left (by simp))

theorem addToNameHash (here : v.role loc = .entry) (fresh : loc ∉ v.on .name)
    (unique : ∀ c ∈ v.on .name, (db.entry c).name ≠ (db.entry loc).name)
    (fits : (db.entry loc).name.length < maxNameLen) :
    OnlyLinks db (db.addToNameHash (db.entry loc).name loc) ∧
      Sound labels (db.addToNameHash (db.entry loc).name loc) (v.onto .name loc) := by
  obtain ⟨threaded, only⟩ := sound.threaded.addToHash (sound.roles.entries loc here).1
    (sound.roles.lt_eof (by simp [here])) (sound.roles.ne_zero (by simp [here])) fresh
  have mem {k : Thread} {b : Nat} : b ∈ update v.on .name (loc :: v.on .name) k ↔ k = .name ∧ b = loc ∨ b ∈ v.on k :=
    View.mem_onto
  refine ⟨only, sound.onlyLinks only threaded ?_ ?_ ?_ ?_ ?_⟩
  · intro k b member
    rcases mem.mp member with ⟨-, rfl⟩ | old
    · exact fun _ => here
    · exact sound.live k b old
  · intro b member c member'
    have old := (mem.mp member).resolve_left (by simp)
    have old' := (mem.mp member').resolve_left (by simp)
    exact sound.ids b old c old'
  · intro b member c member' same
    rcases mem.mp member with ⟨-, rfl⟩ | old
    · rcases mem.mp member' with ⟨-, rfl⟩ | old'
      · rfl
      · exact absurd same.symm (unique c old')
    · rcases mem.mp member' with ⟨-, rfl⟩ | old'
      · exact absurd same (unique b old)
      · exact sound.names b old c old' same
  · exact fun b member => sound.plain b ((mem.mp member).resolve_left (by simp))
  · intro b member
    rcases mem.mp member with ⟨-, rfl⟩ | old
    · exact fits
    · exact sound.short b old

theorem rewrite (here : v.role loc = .entry) {e : PrEntry}
    (flags : e.flags = (db.entry loc).flags) (next : e.next = (db.entry loc).next)
    (entries : e.entries = (db.entry loc).entries) (count : e.count = (db.entry loc).count)
    (links : ∀ k, loc ∈ v.on k → e.link k = (db.entry loc).link k)
    (id : e.id = (db.entry loc).id ∨ loc ∉ v.on .id ∧ (labels → v.conts loc = []))
    (name : e.name = (db.entry loc).name ∨ loc ∉ v.on .name) :
    Sound labels (db.putEntry loc e) v ∧ SameIds db v (db.putEntry loc e) v := by
  have others {b : Nat} (other : b ≠ loc) : (db.putEntry loc e).entry b = db.entry b := by
    rw [entry_putEntry, if_neg other]
  have this : (db.putEntry loc e).entry loc = e := by rw [entry_putEntry, if_pos rfl]
  have ids (b : Nat) (inside : b ∈ v.on .id) : ((db.putEntry loc e).entry b).id = (db.entry b).id := by
    by_cases same : b = loc
    · rw [same] at inside ⊢
      rw [this]
      exact id.resolve_right fun off => off.1 inside
    · rw [others same]
  have names (b : Nat) (inside : b ∈ v.on .name) : ((db.putEntry loc e).entry b).name = (db.entry b).name := by
    by_cases same : b = loc
    · rw [same] at inside ⊢
      rw [this]
      exact name.resolve_right fun off => off inside
    · rw [others same]
  have conts (b c : Nat) (known : v.role b = .entry) (inside : c ∈ v.conts b) : (db.putEntry loc e).cont c = db.cont c := by
    rw [cont_putEntry, if_neg]
    rintro rfl
    have used := (sound.roles.onList b c known).mp inside
    rw [here] at used
    cases used
  have slots (b : Nat) (known : v.role b = .entry) : (db.putEntry loc e).slots v.conts b = db.slots v.conts b := by
    apply slots_congr
    · by_cases same : b = loc
      · rw [same, this, entries]
      · rw [others same]
    · rfl
    · exact fun c inside => by rw [conts b c known inside]
  have lists (b : Nat) (known : v.role b = .entry) : (db.putEntry loc e).ids v.conts b = db.ids v.conts b := by
    unfold PrDb.ids
    rw [slots b known]
  refine ⟨⟨?_, ?_, sound.live, sound.dying, ?_, ?_, ?_, ?_, fun b known => ?_⟩, lists⟩
  · apply sound.roles.putEntry here next
    rw [flags]
    exact (sound.roles.entries loc here).2
  · refine sound.threaded.congr (Nat.le_refl db.header.eofPtr) (fun _ _ => rfl) fun k b inside => ⟨?_, ?_, ?_⟩
    · by_cases same : b = loc
      · rw [same, this, links k (same ▸ inside)]
      · rw [others same]
    · cases k with
      | id => exact congrArg idHash (ids b inside)
      | name => exact congrArg nameHash (names b inside)
    · rw [isEntry_putEntry]
      exact .inr (sound.threaded.entries k b inside).1
  · intro b inside c inside'
    rw [ids b inside, ids c inside']
    exact sound.ids b inside c inside'
  · intro b inside c inside'
    rw [names b inside, names c inside']
    exact sound.names b inside c inside'
  · intro b inside
    rw [ids b inside]
    exact sound.plain b inside
  · intro b inside
    rw [names b inside]
    exact sound.short b inside
  by_cases same : b = loc
  · subst same
    have ok := sound.lists b known
    refine ⟨?_, ?_, ?_, ?_, ?_, ?_⟩
    · rw [slots b known]
      exact ok.packed
    · rw [this, entries]
      exact ok.main
    · intro c inside
      rw [conts b c known inside]
      exact ok.sizes c inside
    · rw [lists b known]
      exact ok.once
    · rw [lists b known, this, count]
      exact ok.count
    · intro marked c inside
      rw [conts b c known inside, this]
      rcases id with same | ⟨-, none⟩
      · rw [same]
        exact ok.named marked c inside
      · rw [none marked] at inside
        cases inside
  · apply ((sound.lists b known).congr _ _ _ rfl _).1
    · rw [others same]
    · rw [others same]
    · rw [others same]
    · exact fun c inside => by rw [conts b c known inside]; exact ⟨rfl, rfl⟩

theorem allocBlock :
    ∃ free', Sound labels db.allocBlock.1 { v with role := update v.role db.allocBlock.2 .loose, free := free' } ∧
      (v.role db.allocBlock.2 = .none ∨ v.role db.allocBlock.2 = .free) ∧ db.allocBlock.2 ≠ v.dying := by
  obtain ⟨free', roles, unused⟩ := sound.roles.allocBlock
  have nonzero : db.allocBlock.2 ≠ 0 := roles.ne_zero (by simp [update_self])
  have unlike {c : Nat} {r : Role} (known : v.role c = r) (used : r ≠ .none ∧ r ≠ .free) : c ≠ db.allocBlock.2 := by
    rintro rfl
    rw [known] at unused
    exact unused.elim used.1 used.2
  have notDying : db.allocBlock.2 ≠ v.dying := by
    rcases sound.dying with none | loose
    · rwa [none]
    · exact Ne.symm (unlike loose (by simp))
  refine ⟨free', ⟨roles, ?_, ?_, ?_, ?_, ?_, ?_, ?_, ?_⟩, unused, notDying⟩
  · apply sound.threaded.congr
    · unfold PrDb.allocBlock
      split
      · exact Nat.le_refl _
      · exact Nat.le_add_right _ _
    · intro k n
      unfold PrDb.allocBlock
      split <;> cases k <;> rfl
    · intro k b inside
      unfold PrDb.IsEntry
      rw [db.entry_allocBlock, db.block_allocBlock]
      exact ⟨rfl, rfl, (sound.threaded.entries k b inside).1⟩
  · intro k b inside other
    have known := sound.live k b inside other
    exact (update_role (by simp)).mpr ⟨unlike known (by simp), known⟩
  · refine sound.dying.imp_right fun loose => ?_
    exact (update_of_ne (Ne.symm notDying) ..).trans loose
  · rw [db.entry_allocBlock]
    exact sound.ids
  · rw [db.entry_allocBlock]
    exact sound.names
  · rw [db.entry_allocBlock]
    exact sound.plain
  · rw [db.entry_allocBlock]
    exact sound.short
  · intro b known
    have used := ((update_role (by simp)).mp known).2
    exact ((sound.lists b used).congr (by rw [db.entry_allocBlock]) (by rw [db.entry_allocBlock])
      (by rw [db.entry_allocBlock]) rfl fun c _ => by rw [db.cont_allocBlock]; exact ⟨rfl, rfl⟩).1

theorem newEntry {b : Nat} (loose : v.role b = .loose) (other : b ≠ v.dying) {e : PrEntry}
    (next : e.next = 0) (flags : e.flags &&& (prFree ||| prCont) = 0) (entries : e.entries = List.replicate prSize 0)
    (count : e.count = 0) :
    Sound labels (db.putEntry b e) { v with role := update v.role b .entry, conts := update v.conts b [] } ∧
      (db.putEntry b e).ids (update v.conts b []) b = [] ∧
      ∀ c, v.role c = .entry → Untouched db v (db.putEntry b e)
        { v with role := update v.role b .entry, conts := update v.conts b [] } c := by
  have apart {c : Nat} {r : Role} (known : v.role c = r) (used : r ≠ .loose) : c ≠ b := by
    rintro rfl
    exact used (known.symm.trans loose)
  have off {k : Thread} {c : Nat} (inside : c ∈ v.on k) : c ≠ b := by
    rintro rfl
    exact other (sound.loose inside (by simp [loose])).1
  have entry (c : Nat) (different : c ≠ b) : (db.putEntry b e).entry c = db.entry c := by
    rw [entry_putEntry, if_neg different]
  have untouched (c : Nat) (known : v.role c = .entry) : Untouched db v (db.putEntry b e)
      { v with role := update v.role b .entry, conts := update v.conts b [] } c := by
    refine ⟨update_of_ne (apart known (by simp)) .., entry c (apart known (by simp)), fun d inside => ?_⟩
    rw [cont_putEntry, if_neg (apart ((sound.roles.onList c d known).mp inside) (by simp))]
  have this : (db.putEntry b e).entry b = e := by rw [entry_putEntry, if_pos rfl]
  have none : update v.conts b [] b = [] := update_self ..
  have slots : (db.putEntry b e).slots (update v.conts b []) b = [List.replicate prSize 0] := by
    unfold PrDb.slots
    rw [this, none, entries]
    rfl
  have nothing : (db.putEntry b e).ids (update v.conts b []) b = [] := by
    unfold PrDb.ids
    rw [slots]
    decide
  refine ⟨⟨sound.roles.newEntry loose next flags, ?_, ?_, ?_, ?_, ?_, ?_, ?_, ?_⟩, nothing, untouched⟩
  · refine sound.threaded.congr (Nat.le_refl db.header.eofPtr) (fun _ _ => rfl) fun k c inside => ?_
    rw [entry c (off inside), isEntry_putEntry]
    exact ⟨rfl, rfl, .inr (sound.threaded.entries k c inside).1⟩
  · intro k c inside different
    have known := sound.live k c inside different
    exact (update_of_ne (off inside) ..).trans known
  · exact sound.dying.imp_right fun gone => (update_of_ne (Ne.symm other) ..).trans gone
  · intro c inside d inside'
    rw [entry c (off inside), entry d (off inside')]
    exact sound.ids c inside d inside'
  · intro c inside d inside'
    rw [entry c (off inside), entry d (off inside')]
    exact sound.names c inside d inside'
  · intro c inside
    rw [entry c (off inside)]
    exact sound.plain c inside
  · intro c inside
    rw [entry c (off inside)]
    exact sound.short c inside
  · intro c known
    by_cases same : c = b
    · subst same
      refine ⟨?_, ?_, ?_, ?_, ?_, ?_⟩
      · rw [slots]
        exact .replicate _
      · rw [this, entries]
        rfl
      · simp
      · rw [nothing]
        exact List.nodup_nil
      · rw [nothing, this, count]
        rfl
      · simp
    · have used : v.role c = .entry := (update_of_ne same ..).symm.trans known
      have kept := untouched c used
      exact ((sound.lists c used).congr (by rw [kept.2.1]) (by rw [kept.2.1]) (by rw [kept.2.1]) kept.1
        fun d inside => by rw [kept.2.2 d inside]; exact ⟨rfl, rfl⟩).1

end Sound

end OpenAFS.Ptserver
