import Jvm.Proofs.Registry.Preparation
import Jvm.Proofs.Registry.Registering

/-!
# Linking keeps tables closed

Whatever is loaded, be it with success or not, classes are only added, every id
in the table is its own, and the id that loading gives is that of a class.
-/

namespace Jvm

/-- How linking steps move a table. -/
structure ClassTable.LinksTo (before after : ClassTable) : Prop where
  grows : before.GrowsTo after
  closed : after.Closed

instance : Trans ClassTable.LinksTo ClassTable.LinksTo ClassTable.LinksTo where
  trans left right := ⟨left.grows.trans right.grows, right.closed⟩

theorem Constant.IsSymbolic.idsIn {constant : Constant} (symbolic : constant.IsSymbolic)
    {table : ClassTable} : constant.IdsIn table := by
  cases constant with
  | resolvedClass | resolvedField | resolvedMethod => exact symbolic.elim
  | _ => exact trivial

namespace ClassFile.Above

variable {table : ClassTable} {file : ClassFile} {superclass : Option ClassId}
  {interfaces : List ClassId} (above : file.Above table superclass interfaces)
  (named : Linking.Named table)

include above named

/-- The superclass of a file that is linked is one that the table has. -/
theorem has {id : ClassId} (found : superclass = some id) : table.Has id := by
  cases declared : file.superclass with
  | none => cases found.symm.trans (above.root declared).1
  | some name =>
      obtain ⟨other, same, known, -⟩ := above.nearest name declared
      cases found.symm.trans same
      exact named name id known

/-- So are its interfaces. -/
theorem has_interface {iface : ClassId} (member : iface ∈ interfaces) :
    table.Has iface ∧ (table.get iface).isInterface = true := by
  obtain ⟨index, inside, rfl⟩ := List.mem_iff_getElem.mp member
  have inside' : index < file.interfaces.length := above.declared.length_eq ▸ inside
  have knows := above.declared.get inside' inside
  exact ⟨named _ _ knows.1, knows.2⟩

end ClassFile.Above

namespace Linking

variable {table : ClassTable}

theorem linksTo_refl (closed : table.Closed) : table.LinksTo table := ⟨.refl table, closed⟩

theorem idsIn_link {id : ClassId} {file : ClassFile} {superclass : Option Class}
    {interfaces : List ClassId} {cls : Class}
    (linked : Class.link id file superclass interfaces = .ok cls)
    (symbolic : file.pool.IsSymbolic)
    (superKnown : ∀ above, superclass = some above → table.Has above.id)
    (interfacesKnown : ∀ iface ∈ interfaces, table.Has iface) :
    cls.id = id ∧ cls.IdsIn table := by
  simp only [Class.link, bind, Except.bind, pure, Except.pure] at linked
  split at linked
  next => cases linked
  next =>
      split at linked
      next => cases linked
      next =>
          cases linked
          refine ⟨rfl, ?_, interfacesKnown, ?_, ?_⟩
          · intro above found
            obtain ⟨cls, declared, rfl⟩ := Option.map_eq_some_iff.mp found
            exact superKnown cls declared
          · intro info component array
            cases array
          · exact fun index => (symbolic index).idsIn

section

variable {file : ClassFile} {superclass : Option ClassId} {interfaces : List ClassId}

/-- A class that is linked from a file below its ancestors keeps a table closed. -/
theorem linksTo_register (closed : table.Closed) (symbolic : file.pool.IsSymbolic)
    (above : file.Above table superclass interfaces) {cls : Class}
    (linked : Class.link table.nextId file (superclass.map table.get) interfaces = .ok cls) :
    table.LinksTo (table.register cls) := by
  have grows := table.growsTo_register cls
  have below : ∀ next, superclass.map table.get = some next →
      (table.register cls).Has next.id := by
    intro next found
    obtain ⟨id, declared, rfl⟩ := Option.map_eq_some_iff.mp found
    have here := above.has closed.names declared
    rw [closed.ids id here]
    exact grows.has here
  obtain ⟨id, ids⟩ := idsIn_link linked symbolic below fun _ member =>
    grows.has (above.has_interface closed.names member).1
  exact ⟨grows, closed.register id ids⟩

variable {linking : List String} {before after : ClassTable}

theorem Registers.linksTo {source : ClassFile → Prop} (parsed : ∀ file, source file → file.Parsed)
    (registers : Registers source linking before after) (closed : before.Closed) :
    before.LinksTo after := by
  cases registers with
  | file provided _ _ above linked =>
      exact linksTo_register closed (parsed _ provided).pool above linked
  | @array name kind component object cloneable serializable _ _ made root first second =>
      let cls := Class.ofArray before.nextId name kind component object [cloneable, serializable]
      have grows := before.growsTo_register cls
      refine ⟨grows, closed.register rfl ⟨?_, fun iface member => ?_, ?_, fun _ => trivial⟩⟩
      · rintro _ ⟨⟩
        exact grows.has (closed.names _ _ root)
      · rcases List.mem_cons.mp member with rfl | member
        · exact grows.has (closed.names _ _ first)
        · cases List.mem_singleton.mp member
          exact grows.has (closed.names _ _ second)
      · rintro _ id ⟨⟩ found
        cases made with
        | primitive => cases found
        | component _ known =>
            cases found
            exact grows.has (closed.names _ _ known)

end

theorem parsed_of_provides {path : ClassPath} {file : ClassFile} (provided : path.Provides file) :
    file.Parsed := by
  have loads := provided.loads
  rw [ClassPath.load] at loads
  split at loads
  next => exact parsed_of_read loads
  next => cases loads

theorem Extends.linksTo {path : ClassPath} {linking : List String} {before after : ClassTable}
    (extended : Extends path.Provides linking before after) (closed : before.Closed) :
    before.LinksTo after := by
  induction extended with
  | refl => exact linksTo_refl closed
  | tail _ registers ih =>
      have linked := Registers.linksTo (fun _ => parsed_of_provides) registers ih.closed
      exact ⟨ih.grows.trans linked.grows, linked.closed⟩

/-! ## Loading -/

theorem moves_load (path : ClassPath) (linking : List String) (name : String)
    (table : ClassTable) (closed : table.Closed) :
    Moves ClassTable.LinksTo (load path linking name) table fun id after => after.Has id := by
  refine (loads_load path linking name table closed.names).mono ?_ ?_
  · rintro id after ⟨obtains, found⟩
    have linked := Extends.linksTo obtains.extends closed
    exact ⟨linked, linked.closed.names name id found⟩
  · exact fun _ after failed => Extends.linksTo failed.1 closed

theorem moves_define (path : ClassPath) (linking : List String) (file : ClassFile)
    (symbolic : file.pool.IsSymbolic) (table : ClassTable) (closed : table.Closed) :
    Moves ClassTable.LinksTo (define path linking file) table fun id after => after.Has id := by
  refine (ends_define path linking file table closed.names).mono ?_ ?_
  · rintro id after ⟨middle, rfl, extended, superclass, interfaces, cls, above, linked, rfl⟩
    have begun := Extends.linksTo extended closed
    have last := linksTo_register begun.closed symbolic above linked
    exact ⟨⟨begun.grows.trans last.grows, last.closed⟩,
      Nat.lt_of_lt_of_eq (Nat.lt_succ_self _) (ClassTable.size_register middle cls).symm⟩
  · exact fun _ after extended => Extends.linksTo extended closed

theorem moves_defineClass (path : ClassPath) (bytes : Array UInt8) (closed : table.Closed) :
    Moves ClassTable.LinksTo (defineClass path bytes) table fun id after => after.Has id := by
  rw [defineClass]
  cases parsed : ClassFile.parse bytes with
  | error error => exact Moves.throw_bind (linksTo_refl closed)
  | ok file =>
      have symbolic := (ClassFile.parsed_of_parse parsed).pool
      simp only [ofExcept, pure_bind]
      refine Moves.get_bind ?_
      split
      · exact Moves.throw (linksTo_refl closed)
      · exact moves_define path [file.name] file symbolic table closed

theorem moves_arrayOf (path : ClassPath) (component : ClassId) (closed : table.Closed) :
    Moves ClassTable.LinksTo (arrayOf path component) table fun id after => after.Has id :=
  Moves.get_bind (moves_load path [] _ table closed)

end Linking

namespace Registry

/-- What linking steps of a registry do: they keep it closed, and what they give is
linked in it. -/
structure Links {α : Type} (returned : α → ClassTable → Prop) (before : Registry)
    (result : Except LoadError α × Registry) : Prop where
  grows : before.toClassTable.GrowsTo result.2.toClassTable
  closed : result.2.Closed
  rests : before.Rests result.2
  has : ∀ value, result.1 = .ok value → returned value result.2.toClassTable

/-- Linking steps that give a class. -/
abbrev LinksClass (before : Registry) (result : Except LoadError ClassId × Registry) : Prop :=
  Links (fun id after => after.Has id) before result

section

variable {registry : Registry} (closed : registry.Closed)

include closed

theorem links_link {α : Type} {returned named : α → ClassTable → Prop}
    {steps : ClassPath → Linking α}
    (moves : Moves ClassTable.LinksTo (steps registry.path) registry.toClassTable returned)
    (appends : Moves ClassTable.Prefixes (steps registry.path) registry.toClassTable named) :
    Links returned registry (registry.link steps) := by
  have prefixes := (registry.prefixes_link steps appends).1
  simp only [Moves, Ends] at moves
  rw [link, EStateM.run] at prefixes ⊢
  split
  next id table ran =>
      rw [ran] at moves prefixes
      obtain ⟨linked, has⟩ := moves
      refine ⟨linked.grows, ⟨linked.closed, ?_⟩, rests_of_table linked.grows prefixes.rests, ?_⟩
      · exact fun key target held => linked.grows.hasMethod (closed.selected key target held)
      · rintro _ ⟨⟩
        exact has
  next error table ran =>
      rw [ran] at moves prefixes
      refine ⟨moves.grows, ⟨moves.closed, ?_⟩, rests_of_table moves.grows prefixes.rests, ?_⟩
      · exact fun key target held => moves.grows.hasMethod (closed.selected key target held)
      · rintro _ ⟨⟩

theorem links_load (name : String) : registry.LinksClass (registry.load name) :=
  links_link closed (Linking.moves_load registry.path [] name _ closed.table)
    (Linking.appends_load registry.path [] name _)

theorem links_defineClass (bytes : Array UInt8) : registry.LinksClass (registry.defineClass bytes) :=
  links_link closed (Linking.moves_defineClass registry.path bytes closed.table)
    (Linking.appends_defineClass registry.path bytes)

theorem links_arrayOf (component : ClassId) : registry.LinksClass (registry.arrayOf component) :=
  links_link closed (Linking.moves_arrayOf registry.path component closed.table)
    (Linking.appends_arrayOf registry.path component)

end

theorem not_has_ofPath (path : ClassPath) (id : ClassId) : ¬(ofPath path).Has id :=
  Nat.not_lt_zero id.index

/-- A registry without classes holds no ids. -/
theorem closed_ofPath (path : ClassPath) : (ofPath path).Closed where
  table := by
    have none := not_has_ofPath path
    refine ⟨fun id known => (none id known).elim, fun id known => (none id known).elim, ?_⟩
    intro name id found
    cases Std.HashMap.getElem?_empty.symm.trans found
  selected key target held := by cases Std.HashMap.getElem?_empty.symm.trans held

end Registry

end Jvm
