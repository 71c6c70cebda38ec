import Miredo.Supervisor.Outcome

namespace miredo.supervisor

open miredo miredo.worker

/-- `conf` is what `ParseConf` built from the default settings and some file. -/
def Parsed (e : Endian) (conf : miredo_conf) : Prop :=
  ∃ cnf, ParseConf e cnf defaultConf = some conf

/-- The default settings are what a file that sets nothing gives. -/
theorem Parsed.defaultConf (e : Endian) : Parsed e defaultConf :=
  ⟨emptyFile, by cases e <;> rfl⟩

end miredo.supervisor
