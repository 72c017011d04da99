import Bilingual.KeywordTable

/-!
# The built-in keywords

The table that is used when no other one is given: Thai words for the keywords
and the most common functions and types of Python.
-/

namespace Bilingual

/-- The rows of the built-in table, localized keyword first. -/
def builtinKeywordPairs : List (String × String) :=
  [("เท็จ", "False"),
    ("ไม่มีค่า", "None"),
    ("จริง", "True"),
    ("และ", "and"),
    ("เป็น", "as"),
    ("ยืนยัน", "assert"),
    ("ไม่ประสาน", "async"),
    ("รอ", "await"),
    ("หยุด", "break"),
    ("คลาส", "class"),
    ("ทำต่อ", "continue"),
    ("นิยาม", "def"),
    ("ลบ", "del"),
    ("หรือถ้า", "elif"),
    ("มิฉะนั้น", "else"),
    ("ยกเว้น", "except"),
    ("สุดท้าย", "finally"),
    ("สำหรับ", "for"),
    ("จาก", "from"),
    ("ทั่วไป", "global"),
    ("ถ้า", "if"),
    ("นำเข้า", "import"),
    ("ใน", "in"),
    ("คือ", "is"),
    ("แลมบ์ดา", "lambda"),
    ("นอกท้องถิ่น", "nonlocal"),
    ("ไม่", "not"),
    ("หรือ", "or"),
    ("ผ่าน", "pass"),
    ("ยก", "raise"),
    ("คืนค่า", "return"),
    ("ลอง", "try"),
    ("ขณะที่", "while"),
    ("ด้วย", "with"),
    ("ผลิต", "yield"),
    ("จับคู่", "match"),
    ("กรณี", "case"),
    ("พิมพ์", "print"),
    ("รับค่า", "input"),
    ("ช่วง", "range"),
    ("ความยาว", "len"),
    ("จำนวนเต็ม", "int"),
    ("ทศนิยม", "float"),
    ("ข้อความ", "str"),
    ("ตรรกะ", "bool"),
    ("รายการ", "list"),
    ("พจนานุกรม", "dict"),
    ("เซต", "set"),
    ("ทูเพิล", "tuple"),
    ("ค่าสัมบูรณ์", "abs"),
    ("ค่าน้อยสุด", "min"),
    ("ค่ามากสุด", "max"),
    ("ผลรวม", "sum"),
    ("เรียงลำดับ", "sorted"),
    ("ย้อนกลับ", "reversed"),
    ("แจงนับ", "enumerate"),
    ("รวมคู่", "zip"),
    ("เปิด", "open"),
    ("ชนิด", "type"),
    ("เป็นชนิด", "isinstance")]

/-- The rows of the built-in table. -/
def builtinKeywordEntries : List KeywordEntry :=
  builtinKeywordPairs.map fun pair => ⟨pair.1.toList, pair.2.toList⟩

/-- The built-in table.  Its rows are words and do not repeat each other, so that
there is one. -/
def KeywordTable.builtin : KeywordTable :=
  (KeywordTable.ofEntries builtinKeywordEntries).toOption.getD .empty

end Bilingual
