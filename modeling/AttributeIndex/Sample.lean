namespace AttributeIndex

structure SampleEntry where
  id : UInt64
  distinguishedName : String
  attributes : List (String × List String)

namespace SampleEntry

def values (entry : SampleEntry) (name : String) : List String :=
  (entry.attributes.lookup name).getD []

def person (id : UInt64) (name : String) (units : List String) (town : String)
    (onInternet : Bool) : SampleEntry where
  id
  distinguishedName :=
    "cn=" ++ name ++ ",ou=" ++ units.headD "" ++ ",dc=example,dc=com"
  attributes := [
    ("objectClass",
      ["top", "person", "organizationalPerson"] ++ if onInternet then ["inetOrgPerson"] else []),
    ("ou", units),
    ("cn", [name]),
    ("l", [town])]

def people : List SampleEntry := [
  person 1 "user01" ["sales"] "Berlin" false,
  person 2 "user02" ["engineering"] "Oslo" false,
  person 3 "user03" ["support"] "Berlin" true,
  person 4 "user04" ["support"] "Oslo" false,
  person 5 "user05" ["engineering"] "Berlin" false,
  person 6 "user06" ["sales"] "Oslo" true,
  person 7 "user07" ["engineering"] "Berlin" false,
  person 8 "user08" ["sales"] "Oslo" false,
  person 9 "user09" ["engineering"] "Berlin" true,
  person 10 "user10" ["engineering", "management"] "Oslo" false,
  person 11 "user11" ["support"] "Berlin" false,
  person 12 "user12" ["engineering"] "Oslo" true,
  person 13 "user13" ["sales"] "Berlin" false,
  person 14 "user14" ["engineering"] "Oslo" false,
  person 15 "user15" ["engineering"] "Berlin" true,
  person 16 "user16" ["engineering"] "Oslo" false,
  person 17 "user17" ["support"] "Berlin" false,
  person 18 "user18" ["support"] "Oslo" true,
  person 19 "user19" ["engineering"] "Berlin" false,
  person 20 "user20" ["engineering", "management"] "Oslo" false,
  person 21 "user21" ["engineering"] "Berlin" true,
  person 22 "user22" ["sales"] "Oslo" false,
  person 23 "user23" ["engineering"] "Berlin" false,
  person 24 "user24" ["support"] "Oslo" true,
  person 25 "user25" ["engineering"] "Berlin" false,
  person 26 "user26" ["engineering"] "Oslo" false,
  person 27 "user27" ["sales"] "Berlin" true,
  person 28 "user28" ["engineering"] "Oslo" false,
  person 29 "user29" ["sales"] "Berlin" false,
  person 30 "user30" ["engineering", "management"] "Oslo" true,
  person 31 "user31" ["support"] "Berlin" false,
  person 32 "user32" ["support"] "Oslo" false,
  person 33 "user33" ["engineering"] "Berlin" true,
  person 34 "user34" ["sales"] "Oslo" false,
  person 35 "user35" ["engineering"] "Berlin" false,
  person 36 "user36" ["sales"] "Oslo" true,
  person 37 "user37" ["engineering"] "Berlin" false,
  person 38 "user38" ["support"] "Oslo" false,
  person 39 "user39" ["support"] "Berlin" true,
  person 40 "user40" ["engineering", "management"] "Oslo" false]

def domain : SampleEntry :=
  ⟨41, "dc=example,dc=com", [("objectClass", ["top", "domain"])]⟩

def all : List SampleEntry :=
  people ++ [domain]

end SampleEntry

end AttributeIndex
