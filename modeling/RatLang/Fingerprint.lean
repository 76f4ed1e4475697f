import RatLang.Digest
import RatLang.Program.Compile

/-!
# Fingerprints

A source and the options that affect its translation, condensed to a digest. Two jobs with one fingerprint have the
same tables, unless two different texts collide in the digest.
-/
namespace RatLang

/-- The text whose digest is the fingerprint: a line of options and the source. -/
def fingerprintText (opts : Options) (src : Text) : Text :=
  Text.line (bytes "base=" ++ decimal opts.base.toInt ++ bytes " strict=" ++ boolText opts.strict ++
    bytes " arithmetic=" ++ boolText opts.arithmetic) ++ src

/-- The fingerprint of a source under the given options. -/
def fingerprint (opts : Options) (src : Text) : Text := md5 (fingerprintText opts src)

end RatLang
